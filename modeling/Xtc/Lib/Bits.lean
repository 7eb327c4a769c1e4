import Mathlib.Tactic

/-! # Bits — bytes, two's complement fields of an integer, and fields of a word -/

namespace Bits

abbrev Byte := BitVec 8

/-- Bit `i` of the `n`-bit two's complement of `v`. -/
theorem getLsbD_ofInt (n : Nat) (v : Int) (i : Nat) :
    (BitVec.ofInt n v).getLsbD i = (decide (i < n) && decide ((v >>> i) % 2 = 1)) := by
  by_cases hi : i < n
  · have hpow : (2 : Int) ^ n = 2 ^ i * (2 * 2 ^ (n - i - 1)) := by
      rw [← pow_succ', ← pow_add]
      congr 1
      omega
    -- the bits above `i` are dropped, an even number of them counted in units of `2 ^ i`
    have hmod : v % 2 ^ n / 2 ^ i % 2 = v / 2 ^ i % 2 := by
      have hsub : v % 2 ^ n = v - 2 ^ i * (2 * (2 ^ (n - i - 1) * (v / 2 ^ n))) := by
        rw [Int.emod_def, hpow]
        ring_nf
      rw [hsub, Int.sub_mul_ediv_left _ _ (by positivity), Int.sub_mul_emod_self_left]
    have hnat : ((v % 2 ^ n).toNat : Int) = v % 2 ^ n :=
      Int.toNat_of_nonneg (Int.emod_nonneg _ (by positivity))
    rw [← BitVec.testBit_toNat, BitVec.toNat_ofInt, Nat.testBit_eq_decide_div_mod_eq,
      Int.shiftRight_eq_div_pow]
    simp only [hi, decide_true, Bool.true_and, decide_eq_decide]
    push_cast
    rw [← hmod, ← hnat]
    norm_cast
  · rw [BitVec.getLsbD_of_ge _ _ (by omega)]
    simp [hi]

/-- A field cut in two: the high part is the shifted value. -/
theorem ofInt_append (a b : Nat) (v : Int) :
    BitVec.ofInt a (v >>> b) ++ BitVec.ofInt b v = BitVec.ofInt (a + b) v := by
  apply BitVec.eq_of_getLsbD_eq
  intro i hi
  rw [BitVec.getLsbD_append, getLsbD_ofInt, getLsbD_ofInt, getLsbD_ofInt]
  by_cases h : i < b
  · simp [h, hi]
  · have hshift : (v >>> b) >>> (i - b) = v >>> i := by
      rw [← Int.shiftRight_add]
      congr 1
      omega
    simp [h, hshift, hi, show i - b < a by omega]

theorem extractLsb'_field {a b c : Nat} (x : BitVec a) (y : BitVec b) (z : BitVec c) :
    (x ++ y ++ z).extractLsb' c b = y := by
  rw [BitVec.extractLsb'_append_eq_of_le le_rfl, Nat.sub_self,
    BitVec.extractLsb'_append_eq_of_add_le (by omega), BitVec.extractLsb'_eq_self]

theorem extractLsb'_low {a b : Nat} (x : BitVec a) (y : BitVec b) :
    (x ++ y).extractLsb' 0 b = y := by
  rw [BitVec.extractLsb'_append_eq_of_add_le (by omega), BitVec.extractLsb'_eq_self]

theorem extractLsb'_high {a b : Nat} (x : BitVec a) (y : BitVec b) :
    (x ++ y).extractLsb' b a = x := by
  rw [BitVec.extractLsb'_append_eq_of_le le_rfl, Nat.sub_self, BitVec.extractLsb'_eq_self]

theorem extractLsb'_join {n : Nat} (x : BitVec n) (low a b : Nat) :
    x.extractLsb' (low + b) a ++ x.extractLsb' low b = x.extractLsb' low (a + b) :=
  BitVec.extractLsb'_append_extractLsb'_eq_extractLsb' rfl

theorem signExtend_ofInt {k : Nat} (n : Nat) {v : Int} (hk : 0 < k) (hlo : -2 ^ (k - 1) ≤ v)
    (hhi : v < 2 ^ (k - 1)) : (BitVec.ofInt k v).signExtend n = BitVec.ofInt n v := by
  rw [BitVec.signExtend, BitVec.toInt_ofInt_eq_self hk hlo hhi]

theorem signExtend_append {n k : Nat} (w : Nat) (hn : 0 < n) (x : BitVec n) (y : BitVec k) :
    (x ++ y).signExtend w = x.signExtend w <<< k ||| y.setWidth w := by
  apply BitVec.eq_of_getLsbD_eq
  intro i hi
  have hmsb : (x ++ y).msb = x.msb := by
    rw [BitVec.msb_append]
    simp [Nat.pos_iff_ne_zero.mp hn]
  simp only [BitVec.getLsbD_or, BitVec.getLsbD_shiftLeft, BitVec.getLsbD_signExtend,
    BitVec.getLsbD_setWidth, BitVec.getLsbD_append, hmsb, hi, decide_true, Bool.true_and]
  by_cases hk : i < k
  · simp [hk, show i < n + k by omega]
  · rw [BitVec.getLsbD_of_ge y i (by omega)]
    simp [hk, show i - k < w by omega, show i < n + k ↔ i - k < n by omega]

theorem signExtend_cast {a b : Nat} (w : Nat) (h : a = b) (x : BitVec a) :
    (x.cast h).signExtend w = x.signExtend w := by
  subst h
  rw [BitVec.cast_eq]

theorem signExtend_append_cast {a b c d : Nat} (w : Nat) (h : b + c = d) (x : BitVec a)
    (y : BitVec b) (z : BitVec c) :
    (x ++ (y ++ z).cast h).signExtend w = (x ++ y ++ z).signExtend w := by
  subst h
  rw [BitVec.cast_eq, BitVec.append_assoc, signExtend_cast]

theorem append_toNat {n k : Nat} (x : BitVec n) (y : BitVec k) :
    (x ++ y).toNat = 2 ^ k * x.toNat + y.toNat := by
  rw [BitVec.toNat_append, Nat.shiftLeft_eq, Nat.mul_comm, ← Nat.two_pow_add_eq_or_of_lt y.isLt]

theorem eq_zero_iff {n : Nat} (x : BitVec n) : x = 0 ↔ x.toNat = 0 := by
  rw [← BitVec.toNat_inj]
  exact Iff.rfl

/-- A mask and a shift cut out a field. -/
theorem mask_shift {w : Nat} (x : BitVec w) (low n : Nat) :
    (x &&& (BitVec.allOnes n).setWidth w <<< low) >>> low =
      (x.extractLsb' low n).setWidth w := by
  apply BitVec.eq_of_getLsbD_eq
  intro i hi
  simp only [BitVec.getLsbD_ushiftRight, BitVec.getLsbD_and, BitVec.getLsbD_shiftLeft,
    BitVec.getLsbD_setWidth, BitVec.getLsbD_extractLsb', BitVec.getLsbD_allOnes]
  by_cases hl : low + i < w
  · simp [hl, hi, Bool.and_comm]
  · rw [BitVec.getLsbD_of_ge x _ (by omega)]
    simp

theorem shift_mask {w : Nat} (x : BitVec w) (low n : Nat) :
    ((x >>> low) &&& (BitVec.allOnes n).setWidth w) = (x.extractLsb' low n).setWidth w := by
  apply BitVec.eq_of_getLsbD_eq
  intro i hi
  simp only [BitVec.getLsbD_ushiftRight, BitVec.getLsbD_and,
    BitVec.getLsbD_setWidth, BitVec.getLsbD_extractLsb', BitVec.getLsbD_allOnes]
  simp [hi, Bool.and_comm]

end Bits
