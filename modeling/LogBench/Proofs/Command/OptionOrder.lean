import LogBench.Command.Arguments
import LogBench.Proofs.Text.Numeral

/-!
Where the options of a simulation stand among its operands: anywhere, each with its value behind it. Only
the order of the operands counts, and among options of one name which is the last.
-/
namespace LogBench.Command

structure Operand where
  text : String
  plain : text.toList.head? ≠ some '-' ∨ text = "-"
  deriving DecidableEq

structure NumberText where
  text : String
  value : Nat
  denotes : Numeral.Denotes text.toList value
  lt : value < 2 ^ 32
  deriving DecidableEq

def NumberText.ofRead (text : String) (n : Nat)
    (h : Numeral.readBelow? 10 (2 ^ 32) text.toList = some n) : NumberText :=
  ⟨text, n, (Numeral.readBelow?_ten_eq_some_iff.mp h).1, (Numeral.readBelow?_ten_eq_some_iff.mp h).2⟩

inductive Setting where
  | json
  | capacity (n : NumberText)
  | budget (n : NumberText)
  deriving DecidableEq

namespace Setting

def name : Setting → String
  | json => "--json"
  | capacity _ => "--capacity"
  | budget _ => "--budget"

def arguments : Setting → List String
  | json => ["--json"]
  | capacity n => ["--capacity", n.text]
  | budget n => ["--budget", n.text]

def capacity? : Setting → Option Nat
  | capacity n => some n.value
  | _ => none

def budget? : Setting → Option Nat
  | budget n => some n.value
  | _ => none

def apply (o : Options) : Setting → Options
  | json => { o with json := true }
  | capacity n => { o with capacity := some n.value }
  | budget n => { o with budget := some n.value }

end Setting

def lastCapacity (settings : List Setting) : Option Nat :=
  (settings.filterMap Setting.capacity?).getLast?

def lastBudget (settings : List Setting) : Option Nat :=
  (settings.filterMap Setting.budget?).getLast?

/-- The arguments are the operands and the options, each of both in order and no option torn apart. -/
inductive Interleaved : List Operand → List Setting → List String → Prop where
  | nil : Interleaved [] [] []
  | operand {p : Operand} {operands : List Operand} {settings : List Setting} {args : List String} :
      Interleaved operands settings args → Interleaved (p :: operands) settings (p.text :: args)
  | setting {s : Setting} {operands : List Operand} {settings : List Setting} {args : List String} :
      Interleaved operands settings args → Interleaved operands (s :: settings) (s.arguments ++ args)

/-- The options of each name come in the same order. -/
def SameRepeats (settings settings' : List Setting) : Prop :=
  ∀ name, settings.filter (·.name = name) = settings'.filter (·.name = name)

variable {p : Operand} {s : Setting} {o : Options} {operands ops : List Operand}
  {settings settings' : List Setting} {args : List String}

section Steps

private theorem Operand.isOption_text (p : Operand) : isOption p.text = false := by
  unfold isOption
  split
  · rename_i c rest htext
    rcases p.plain with hplain | hplain
    · exact absurd (congrArg List.head? htext) hplain
    · rw [hplain] at htext
      cases htext
  · rfl

private theorem Operand.text_ne (p : Operand) (name : String) (hname : isOption name = true) :
    p.text ≠ name := by
  rintro rfl
  rw [p.isOption_text] at hname
  cases hname

private theorem readSimulation_operand (o : Options) (p : Operand) (args : List String) :
    readSimulation o (p.text :: args) = readSimulation (o.addOperand p.text) args := by
  rw [readSimulation.eq_def]
  simp only [p.text_ne "--json" (by decide), p.text_ne "--capacity" (by decide),
    p.text_ne "--budget" (by decide), p.isOption_text, Bool.false_eq_true, if_false]

private theorem readNumber_text (name : String) (n : NumberText) :
    readNumber name (2 ^ 32) n.text = .ok n.value := by
  rw [readNumber, Numeral.readBelow?_ten_eq_some_iff.mpr ⟨n.denotes, n.lt⟩]

private theorem readSimulation_setting (o : Options) (s : Setting) (args : List String) :
    readSimulation o (s.arguments ++ args) = readSimulation (s.apply o) args := by
  cases s with
  | json =>
    change readSimulation o ("--json" :: args) = _
    rw [readSimulation.eq_def]
    exact if_pos rfl
  | capacity n =>
    change readSimulation o ("--capacity" :: n.text :: args) = _
    rw [readSimulation.eq_def]
    simp only [show "--capacity" ≠ "--json" by decide, if_false, if_true, readNumber_text]
    rfl
  | budget n =>
    change readSimulation o ("--budget" :: n.text :: args) = _
    rw [readSimulation.eq_def]
    simp only [show "--budget" ≠ "--json" by decide, show "--budget" ≠ "--capacity" by decide, if_false,
      if_true, readNumber_text]
    rfl

end Steps

section Runs

/-- Operands and options set different things, so it does not matter which come first. -/
private theorem addOperand_apply (o : Options) (s : Setting) (arg : String) :
    (s.apply o).addOperand arg = s.apply (o.addOperand arg) := by
  obtain ⟨records, ops, capacity, budget, json⟩ := o
  cases s <;> cases records <;> rfl

private theorem readSimulation_interleaved (h : Interleaved operands settings args) (o : Options) :
    readSimulation o args =
      (settings.foldl Setting.apply ((operands.map (·.text)).foldl Options.addOperand o)).simulation := by
  induction h generalizing o with
  | nil => rfl
  | operand _ ih => rw [readSimulation_operand, ih, List.map_cons, List.foldl_cons]
  | @setting s operands _ _ _ ih =>
    have hcommute : (operands.map (·.text)).foldl Options.addOperand (s.apply o) =
        s.apply ((operands.map (·.text)).foldl Options.addOperand o) :=
      List.foldl_hom (fun o => s.apply o) fun o arg => addOperand_apply o s arg
    rw [readSimulation_setting, ih, hcommute, List.foldl_cons]

/-- Once there is a path, all further operands are operations. -/
private theorem foldl_addOperand {records : String} (h : o.records = some records)
    (texts : List String) :
    texts.foldl Options.addOperand o = { o with ops := o.ops ++ texts } := by
  induction texts generalizing o with
  | nil => rw [List.foldl_nil, List.append_nil]
  | cons text rest ih =>
    have hadd : o.addOperand text = { o with ops := o.ops ++ [text] } := by rw [Options.addOperand, h]
    rw [List.foldl_cons, hadd, ih (o := { o with ops := o.ops ++ [text] }) h, List.append_assoc,
      List.singleton_append]

private theorem getLast?_filterMap_cons {α β : Type} (f : α → Option β) (a : α) (l : List α) :
    ((a :: l).filterMap f).getLast? = (l.filterMap f).getLast?.or (f a) := by
  rw [List.filterMap_cons]
  cases f a with
  | none => exact Option.or_none.symm
  | some b =>
    rw [List.getLast?_cons]
    cases (l.filterMap f).getLast? <;> rfl

private theorem apply_eq (o : Options) (s : Setting) : s.apply o =
    { o with
      capacity := s.capacity?.or o.capacity
      budget := s.budget?.or o.budget
      json := decide (s = .json) || o.json } := by
  cases s <;> rfl

/-- Of the options of one name the last one counts, and what was set before only where there is none. -/
private theorem foldl_apply (settings : List Setting) (o : Options) :
    settings.foldl Setting.apply o =
      { o with
        capacity := (lastCapacity settings).or o.capacity
        budget := (lastBudget settings).or o.budget
        json := decide (.json ∈ settings) || o.json } := by
  induction settings generalizing o with
  | nil => rfl
  | cons s rest ih =>
    have hcapacity : lastCapacity (s :: rest) = (lastCapacity rest).or s.capacity? :=
      getLast?_filterMap_cons ..
    have hbudget : lastBudget (s :: rest) = (lastBudget rest).or s.budget? :=
      getLast?_filterMap_cons ..
    have hjson : decide (Setting.json ∈ s :: rest) = (decide (.json ∈ rest) || decide (s = .json)) := by
      rw [Bool.eq_iff_iff, Bool.or_eq_true, decide_eq_true_iff, decide_eq_true_iff, decide_eq_true_iff,
        List.mem_cons, or_comm, eq_comm (a := s)]
    rw [List.foldl_cons, ih, apply_eq, hcapacity, hbudget, hjson, Option.or_assoc, Option.or_assoc,
      Bool.or_assoc]

/-- What the arguments come to in any arrangement. -/
theorem readSimulation_eq_ok (hops : ops ≠ []) (h : Interleaved (p :: ops) settings args) :
    readSimulation {} args = .ok
      { records := p.text
        ops := ops.map (·.text)
        capacity := lastCapacity settings
        budget := lastBudget settings
        json := decide (.json ∈ settings) } := by
  have hrecords : Options.addOperand {} p.text = { records := some p.text } := rfl
  have hempty : (ops.map (·.text)).isEmpty = false := by
    rwa [List.isEmpty_eq_false_iff, ne_eq, List.map_eq_nil_iff]
  rw [readSimulation_interleaved h, List.map_cons, List.foldl_cons, hrecords, foldl_addOperand rfl,
    foldl_apply]
  simp only [Options.simulation, List.nil_append, hempty, Option.or_none, Bool.or_false,
    Bool.false_eq_true, if_false]

end Runs

namespace SameRepeats

/-- Neighbours with two names may change places. -/
private theorem swap {s' : Setting} (h : s.name ≠ s'.name) (rest : List Setting) :
    SameRepeats (s :: s' :: rest) (s' :: s :: rest) := by
  intro name
  by_cases hs : s.name = name
  · have hs' : s'.name ≠ name := fun he => h (hs.trans he.symm)
    simp only [List.filter_cons, hs, hs', decide_true, decide_false, if_true, Bool.false_eq_true, if_false]
  · simp only [List.filter_cons, hs, decide_false, Bool.false_eq_true, if_false]

/-- What only options of one name give is given in the same order. -/
private theorem filterMap_eq {β : Type} {f : Setting → Option β}
    (h : SameRepeats settings settings') (name : String) (hf : ∀ s, s.name ≠ name → f s = none) :
    settings.filterMap f = settings'.filterMap f := by
  have hfilter (settings : List Setting) :
      (settings.filter (·.name = name)).filterMap f = settings.filterMap f := by
    rw [List.filterMap_filter]
    apply List.filterMap_congr
    intro s _
    by_cases hname : s.name = name
    · simp only [hname, decide_true, if_true]
    · simp only [hname, decide_false, Bool.false_eq_true, if_false, hf s hname]
  rw [← hfilter settings, h name, hfilter]

private theorem lastCapacity_eq (h : SameRepeats settings settings') :
    lastCapacity settings = lastCapacity settings' := by
  rw [lastCapacity, h.filterMap_eq "--capacity", lastCapacity]
  rintro (_ | n | n) hname
  · rfl
  · exact absurd rfl hname
  · rfl

private theorem lastBudget_eq (h : SameRepeats settings settings') :
    lastBudget settings = lastBudget settings' := by
  rw [lastBudget, h.filterMap_eq "--budget", lastBudget]
  rintro (_ | n | n) hname
  · rfl
  · rfl
  · exact absurd rfl hname

private theorem mem_iff (h : SameRepeats settings settings') : s ∈ settings ↔ s ∈ settings' := by
  have hfilter (settings : List Setting) : s ∈ settings.filter (·.name = s.name) ↔ s ∈ settings := by
    rw [List.mem_filter, decide_eq_true rfl, and_iff_left rfl]
  rw [← hfilter settings, h s.name, hfilter]

end SameRepeats

/-- For a path of records, at least one operation and any options: their arrangements are all accepted, and
those in which the options of each name keep their order come to the same. -/
theorem options_anywhere (records : Operand) {ops : List Operand} (hops : ops ≠ [])
    (settings : List Setting) :
    (∀ placed args, placed.Perm settings → Interleaved (records :: ops) placed args →
      ∃ s, readSimulation {} args = .ok s ∧
        s.records = records.text ∧ s.ops = ops.map (·.text) ∧ (s.json = true ↔ .json ∈ settings) ∧
        s.capacity = lastCapacity placed ∧ s.budget = lastBudget placed) ∧
    ∀ placed args, SameRepeats placed settings → Interleaved (records :: ops) placed args →
      readSimulation {} args = .ok
        { records := records.text
          ops := ops.map (·.text)
          capacity := lastCapacity settings
          budget := lastBudget settings
          json := decide (.json ∈ settings) } := by
  constructor
  · intro placed args hperm h
    refine ⟨_, readSimulation_eq_ok hops h, rfl, rfl, ?_, rfl, rfl⟩
    rw [decide_eq_true_iff, hperm.mem_iff]
  · intro placed args hsame h
    rw [readSimulation_eq_ok hops h, hsame.lastCapacity_eq, hsame.lastBudget_eq]
    simp only [hsame.mem_iff]

/-- A repeated capacity, with other arguments between its name and its repetition. -/
def twoCapacities : List Setting :=
  [.capacity (.ofRead "4" 4 rfl), .json, .capacity (.ofRead "+08" 8 rfl)]

/-- One arrangement that keeps the order of the capacities, and one that does not. -/
theorem options_anywhere_capacities :
    readSimulation {} ["bench.rec", "--json", "--capacity", "4", "-", "--capacity", "+08", "status"] =
      .ok { records := "bench.rec", ops := ["-", "status"], capacity := some 8, json := true } ∧
    ∃ s, readSimulation {} ["--capacity", "+08", "bench.rec", "-", "--json", "status", "--capacity", "4"] =
      .ok s ∧ s.ops = ["-", "status"] ∧ s.capacity = some 4 := by
  have hops : [(⟨"-", .inr rfl⟩ : Operand), ⟨"status", .inl (by decide)⟩] ≠ [] := List.cons_ne_nil _ _
  have hall := options_anywhere ⟨"bench.rec", .inl (by decide)⟩ hops twoCapacities
  constructor
  · exact hall.2 _ _ (.swap (s := .json) (by decide) _)
      (.operand (.setting (.setting (.operand (.setting (.operand .nil))))))
  · obtain ⟨s, hread, -, hs, -, hcapacity, -⟩ := hall.1
      [.capacity (.ofRead "+08" 8 rfl), .json, .capacity (.ofRead "4" 4 rfl)] _ (by decide)
      (.setting (.operand (.operand (.setting (.operand (.setting .nil))))))
    exact ⟨s, hread, hs, hcapacity⟩

end LogBench.Command
