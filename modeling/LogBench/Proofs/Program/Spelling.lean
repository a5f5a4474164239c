import LogBench.Program.Print
import LogBench.Program.Walk
import Mathlib.Data.List.Induction

/-! The digits that are printed byte by byte are those of the number that the bytes stand for. -/
namespace LogBench.Program

private theorem hexDigit_eq {n : Nat} (h : n < 16) :
    hexDigit n = (upperDigits.getD n '0').toUInt8 := by
  revert n
  decide

/-- The last digit is that of the remainder. -/
private theorem hexSpelling_succ (width value : Nat) :
    hexSpelling (width + 1) value = hexSpelling width (value / 16) ++ [hexDigit (value % 16)] := by
  have hlast := hexDigit_eq (Nat.mod_lt value (by decide : 16 > 0))
  unfold hexSpelling
  rw [List.range_succ, List.map_append, hlast]
  congr 1
  · apply List.map_congr_left
    intro i hi
    have hlt := List.mem_range.mp hi
    rw [Nat.div_div_eq_div_mul, ← Nat.pow_succ']
    congr 5
    omega
  · simp

/-- The first digit is all that a longer spelling has more. -/
private theorem tail_hexSpelling (width value : Nat) :
    (hexSpelling (width + 1) value).tail = hexSpelling width value := by
  unfold hexSpelling
  rw [List.range_succ_eq_map, List.map_cons, List.tail_cons, List.map_map]
  apply List.map_congr_left
  intro i _
  have hpow : width + 1 - 1 - (i + 1) = width - 1 - i := by omega
  simp only [Function.comp_apply, hpow]

private theorem hexSpelling_mod (width value : Nat) :
    hexSpelling width (value % 16 ^ width) = hexSpelling width value := by
  induction width generalizing value with
  | zero => rfl
  | succ width ih =>
    have hhigh : value % 16 ^ (width + 1) / 16 = value / 16 % 16 ^ width := by
      rw [Nat.pow_succ', Nat.mod_mul_right_div_self]
    have hlow : value % 16 ^ (width + 1) % 16 = value % 16 :=
      Nat.mod_mod_of_dvd value ⟨16 ^ width, Nat.pow_succ'⟩
    rw [hexSpelling_succ, hexSpelling_succ, hhigh, hlow, ih]

/-- Two digits for each byte. -/
private theorem flatMap_hexDigit (bytes : List UInt8) :
    (bytes.flatMap fun b => [hexDigit (b.toNat / 16), hexDigit (b.toNat % 16)]) =
      hexSpelling (2 * bytes.length) (Bytes.bigEndian bytes) := by
  induction bytes using List.reverseRecOn with
  | nil => rfl
  | append_singleton bytes b ih =>
    have hb := b.toNat_lt
    have hlen : 2 * (bytes ++ [b]).length = 2 * bytes.length + 1 + 1 := by
      rw [List.length_append, List.length_singleton]
      omega
    have hrest : Bytes.bigEndian (bytes ++ [b]) / 16 / 16 = Bytes.bigEndian bytes := by
      rw [Bytes.bigEndian_append_singleton]
      omega
    have hhigh : Bytes.bigEndian (bytes ++ [b]) / 16 % 16 = b.toNat / 16 := by
      rw [Bytes.bigEndian_append_singleton]
      omega
    have hlow : Bytes.bigEndian (bytes ++ [b]) % 16 = b.toNat % 16 := by
      rw [Bytes.bigEndian_append_singleton]
      omega
    rw [List.flatMap_append, ih, hlen, hexSpelling_succ, hexSpelling_succ, hrest, hhigh, hlow,
      List.append_assoc]
    rfl

theorem printHex_eq {digits : Nat} {bytes : List UInt8} (h : bytes.length = (digits + 1) / 2) :
    printHex digits bytes = hexSpelling digits (Bytes.bigEndian bytes % 16 ^ digits) := by
  rw [printHex, flatMap_hexDigit, hexSpelling_mod]
  rcases Nat.mod_two_eq_zero_or_one digits with heven | hodd
  · rw [heven, List.drop_zero]
    congr 1
    omega
  · have hlen : 2 * bytes.length = digits + 1 := by omega
    rw [hodd, hlen, List.drop_one, tail_hexSpelling]

/-- Four bytes fit the word in which an operand is accumulated. -/
theorem toNat_accumulated (bytes : List UInt8) (h : bytes.length ≤ 4) :
    (bytes.foldl (fun (word : UInt32) b => word <<< 8 ||| b.toUInt32) 0).toNat =
      Bytes.bigEndian bytes := by
  induction bytes using List.reverseRecOn with
  | nil => rfl
  | append_singleton bytes b ih =>
    rw [List.length_append, List.length_singleton] at h
    have hearlier := ih (by omega)
    have hlt : Bytes.bigEndian bytes < 256 ^ 3 :=
      Nat.lt_of_lt_of_le (Bytes.bigEndian_lt bytes)
        (Nat.pow_le_pow_right (by decide) (by omega))
    have hshift : Bytes.bigEndian bytes <<< 8 % 2 ^ 32 = Bytes.bigEndian bytes <<< 8 := by
      apply Nat.mod_eq_of_lt
      rw [Nat.shiftLeft_eq]
      omega
    rw [List.foldl_append, List.foldl_cons, List.foldl_nil, UInt32.toNat_or,
      UInt32.toNat_shiftLeft, hearlier, UInt8.toNat_toUInt32]
    change Bytes.bigEndian bytes <<< 8 % 2 ^ 32 ||| b.toNat = _
    rw [hshift, ← Nat.shiftLeft_add_eq_or_of_lt b.toNat_lt, Nat.shiftLeft_eq,
      Bytes.bigEndian_append_singleton]
    omega

theorem printDecimal_eq (pad : Nat) {bytes : List UInt8} (h : bytes.length ≤ 4) :
    printDecimal pad bytes =
      decimalSpelling (Directive.columns pad) (Bytes.bigEndian bytes) := by
  rw [printDecimal, toNat_accumulated bytes h]
  rfl

end LogBench.Program
