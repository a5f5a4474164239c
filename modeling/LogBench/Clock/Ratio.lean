/-!
Clock ratios, and the search for the ratio closest to a number: a walk down the tree of mediants
between 0/1 and 1/0.
-/
namespace LogBench.Clock

structure Ratio where
  numerator : Nat
  denominator : Nat
  deriving DecidableEq, Repr

/-- The settings of a digital differential analyser. -/
structure Settings where
  adder : Int := 0
  subtractor : Int := 0
  deriving DecidableEq, Repr

namespace Ratio

/-- The quotient; infinite where the denominator is zero. -/
def toFloat (r : Ratio) : Float :=
  Float.ofNat r.numerator / Float.ofNat r.denominator

def mediant (r s : Ratio) : Ratio :=
  ⟨r.numerator + s.numerator, r.denominator + s.denominator⟩

def settings (r : Ratio) : Settings where
  adder := r.numerator - 1
  subtractor := r.denominator - 2 - (r.numerator - 1)

def fits (limit : Nat) (r : Ratio) : Bool :=
  r.settings.adder < limit && r.settings.subtractor < limit

end Ratio

def Settings.ofRatio (r : Option Ratio) : Settings :=
  match r with
  | some r => r.settings
  | none => {}

/-- What a judge says of a ratio: close enough to its number, above it, or else to be raised. -/
inductive Verdict where
  | close
  | above
  | below
  deriving DecidableEq, Repr

/-- The two ratios that a search lies between. -/
structure Bracket where
  low : Ratio
  high : Ratio
  deriving DecidableEq, Repr

namespace Bracket

def whole : Bracket := ⟨⟨0, 1⟩, ⟨1, 0⟩⟩

def middle (b : Bracket) : Ratio := b.low.mediant b.high

/-- The low end, unless it is still zero. -/
def lowest? (b : Bracket) : Option Ratio :=
  if b.low.numerator = 0 then none else some b.low

end Bracket

inductive Search where
  | settled (found : Option Ratio)
  | narrowed (b : Bracket)
  deriving DecidableEq, Repr

/-- Takes one mediant. The search is over when the mediant does not fit or is close enough. -/
def Bracket.probe (judge : Ratio → Verdict) (limit : Nat) (b : Bracket) : Search :=
  let r := b.middle
  if r.fits limit then
    match judge r with
    | .close => .settled (some r)
    | .above => .narrowed ⟨b.low, r⟩
    | .below => .narrowed ⟨r, b.high⟩
  else .settled b.lowest?

def Bracket.search (judge : Ratio → Verdict) (limit : Nat) : Nat → Bracket → Search
  | 0, b => .narrowed b
  | n + 1, b =>
    match b.probe judge limit with
    | .settled found => .settled found
    | .narrowed b => b.search judge limit n

/-- The ratio that a judge settles on. A mediant that fits has a numerator of at most `limit` and a
denominator of at most twice that, so the search is over within so many mediants. -/
def Ratio.search? (judge : Ratio → Verdict) (limit : Nat) : Option Ratio :=
  match Bracket.whole.search judge limit (3 * limit + 2) with
  | .settled found => found
  | .narrowed _ => none

/-- Close is nearer than a third of the reciprocal of `max`, by the product with the denominator.
Numbers that compare with nothing are never close or below a ratio. -/
def judge (f : Float) (max : Nat) (r : Ratio) : Verdict :=
  let tolerance := 1.0 / Float.ofNat max / 3.0
  let difference := f * Float.ofNat r.denominator - Float.ofNat r.numerator
  if difference.abs < tolerance then .close
  else if difference < 0.0 then .above
  else .below

def Ratio.closest? (f : Float) (max : Nat) : Option Ratio :=
  search? (judge f max) max

end LogBench.Clock
