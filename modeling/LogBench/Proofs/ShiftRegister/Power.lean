import LogBench.Proofs.ShiftRegister.Polynomial

/-!
Products and powers modulo a polynomial, in as many steps as the factors and the exponent have bits.
-/
namespace LogBench.ShiftRegister

/-- A multiple of `a`, by the lowest bits of `b`. -/
def multiplied (width poly a : Nat) : (bits b : Nat) → Nat
  | 0, _ => 0
  | bits + 1, b => (a * (b % 2)) ^^^ doubled width poly (multiplied width poly a bits (b / 2))

def product (width poly a b : Nat) : Nat :=
  multiplied width poly a (b.log2 + 1) b

def raised (width poly : Nat) : (bits n : Nat) → Nat
  | 0, _ => 1
  | bits + 1, n =>
    let half := raised width poly bits (n / 2)
    let square := product width poly half half
    if n % 2 = 1 then doubled width poly square else square

def power (width poly n : Nat) : Nat :=
  raised width poly (n.log2 + 1) n

section Residues

variable {width poly a b n bits : Nat}

private theorem xor_double_half (n : Nat) : (n % 2) ^^^ (2 * (n / 2)) = n := by
  apply Nat.eq_of_testBit_eq
  intro i
  cases i with
  | zero => simp
  | succ i =>
    rw [Nat.testBit_xor, Nat.testBit_succ, Nat.testBit_succ, Nat.testBit_succ]
    simp

/-- A number as its lowest bit and the indeterminate times the rest. -/
private theorem residue_half (poly n : Nat) :
    residue poly n = residue poly (n % 2) + AdjoinRoot.root _ * residue poly (n / 2) := by
  rw [← residue_double, ← residue_xor, xor_double_half]

private theorem mul_mod_two_lt (ha : a < 2 ^ width) (b : Nat) : a * (b % 2) < 2 ^ width := by
  rcases Nat.mod_two_eq_zero_or_one b with hb | hb
  · rw [hb]
    exact Nat.two_pow_pos width
  · rwa [hb, Nat.mul_one]

private theorem residue_mul_mod_two (poly a b : Nat) :
    residue poly (a * (b % 2)) = residue poly a * residue poly (b % 2) := by
  rcases Nat.mod_two_eq_zero_or_one b with hb | hb
  · rw [hb, Nat.mul_zero, residue_zero, mul_zero]
  · rw [hb, Nat.mul_one, residue_one, mul_one]

namespace Modulus

private theorem multiplied_lt (h : Modulus width poly) (ha : a < 2 ^ width) (bits b : Nat) :
    multiplied width poly a bits b < 2 ^ width := by
  induction bits generalizing b with
  | zero => exact Nat.two_pow_pos width
  | succ bits ih => exact Nat.xor_lt_two_pow (mul_mod_two_lt ha b) (h.doubled_lt (ih (b / 2)))

private theorem residue_multiplied (h : Modulus width poly) (ha : a < 2 ^ width)
    (hb : b < 2 ^ bits) :
    residue poly (multiplied width poly a bits b) = residue poly a * residue poly b := by
  induction bits generalizing b with
  | zero =>
    obtain rfl : b = 0 := Nat.lt_one_iff.mp hb
    rw [multiplied, residue_zero, mul_zero]
  | succ bits ih =>
    have hhalf : b / 2 < 2 ^ bits := by
      rw [Nat.pow_succ] at hb
      omega
    rw [multiplied, residue_xor, residue_mul_mod_two, residue_doubled (h.multiplied_lt ha bits _),
      ih hhalf, residue_half poly b]
    ring

private theorem product_lt (h : Modulus width poly) (ha : a < 2 ^ width) (b : Nat) :
    product width poly a b < 2 ^ width :=
  h.multiplied_lt ha _ b

private theorem residue_product (h : Modulus width poly) (ha : a < 2 ^ width) (b : Nat) :
    residue poly (product width poly a b) = residue poly a * residue poly b :=
  h.residue_multiplied ha Nat.lt_log2_self

private theorem raised_lt (h : Modulus width poly) (bits n : Nat) :
    raised width poly bits n < 2 ^ width := by
  induction bits generalizing n with
  | zero => exact Nat.one_lt_two_pow h.pos.ne'
  | succ bits ih =>
    have hsquare := h.product_lt (ih (n / 2)) (raised width poly bits (n / 2))
    rw [raised]
    split
    · exact h.doubled_lt hsquare
    · exact hsquare

private theorem residue_raised (h : Modulus width poly) (hn : n < 2 ^ bits) :
    residue poly (raised width poly bits n) = AdjoinRoot.root _ ^ n := by
  induction bits generalizing n with
  | zero =>
    obtain rfl : n = 0 := Nat.lt_one_iff.mp hn
    rw [raised, residue_one, pow_zero]
  | succ bits ih =>
    have hlt := h.raised_lt bits (n / 2)
    have hhalf : n / 2 < 2 ^ bits := by
      rw [Nat.pow_succ] at hn
      omega
    have hsquare := h.residue_product hlt (raised width poly bits (n / 2))
    rw [ih hhalf, ← pow_add] at hsquare
    rw [raised]
    split
    · rw [residue_doubled (h.product_lt hlt _), hsquare, ← pow_succ']
      congr 1
      omega
    · rw [hsquare]
      congr 1
      omega

private theorem residue_power (h : Modulus width poly) (n : Nat) :
    residue poly (power width poly n) = AdjoinRoot.root _ ^ n :=
  h.residue_raised Nat.lt_log2_self

theorem power_eq_one_iff (h : Modulus width poly) (n : Nat) :
    power width poly n = 1 ↔ AdjoinRoot.root (polynomial poly) ^ n = 1 := by
  rw [← h.residue_power, ← residue_one]
  exact ⟨congrArg _, h.residue_inj (h.raised_lt _ n) (Nat.one_lt_two_pow h.pos.ne')⟩

end Modulus

end Residues

end LogBench.ShiftRegister
