import Xtc.Tools.Assemble
import Xtc.Linker.Preserve

/-!
# Width — how wide a constant is, `xtc_count_bits` and `xtc_fits_imm`

The assembler counts the bits a constant needs by shifting it to the left until its sign changes;
the linker compares the constant with the two ends of the range.
-/

namespace Xtc.Tools

open Xtc.Linker

theorem toInt_bounds (x : Word) : -(2 ^ 31 : Int) ≤ x.toInt ∧ x.toInt < 2 ^ 31 :=
  ⟨BitVec.le_toInt x, BitVec.toInt_lt⟩

/-- The sign survives a shift of one place exactly in the inner half of the range, -/
theorem msb_shiftLeft_one (x : Word) :
    (x <<< 1).msb = x.msb ↔ -(2 ^ 30 : Int) ≤ x.toInt ∧ x.toInt < 2 ^ 30 := by
  have hlt := x.isLt
  rw [BitVec.msb_eq_decide, BitVec.msb_eq_decide, decide_eq_decide, BitVec.toNat_shiftLeft,
    BitVec.toInt_eq_toNat_cond, Nat.shiftLeft_eq]
  split <;> omega

/-- and there the shift doubles. -/
theorem toInt_shiftLeft_one {x : Word} (h : -(2 ^ 30 : Int) ≤ x.toInt ∧ x.toInt < 2 ^ 30) :
    (x <<< 1).toInt = 2 * x.toInt := by
  have hlt := x.isLt
  rw [BitVec.toInt_eq_toNat_cond] at h ⊢
  rw [BitVec.toInt_eq_toNat_cond, BitVec.toNat_shiftLeft, Nat.shiftLeft_eq]
  split at h <;> split <;> omega

theorem xtcCountBitsFrom_le_self (s : Bool) (c : Nat) (x : Word) : xtcCountBitsFrom s c x ≤ c := by
  induction c generalizing x with
  | zero => exact le_rfl
  | succ c ih =>
    simp only [xtcCountBitsFrom]
    split
    · exact le_rfl
    · exact (ih _).trans (Nat.le_succ c)

/-- The loop, with `c` places to go and at most `c - k` of them to be shifted. -/
theorem xtcCountBitsFrom_le_iff {s : Bool} {c k : Nat} {x : Word} (hc : c ≤ 31) (hk : k ≤ c)
    (hs : x.msb = s) :
    xtcCountBitsFrom s c x ≤ k ↔
      -(2 ^ (31 - (c - k)) : Int) ≤ x.toInt ∧ x.toInt < 2 ^ (31 - (c - k)) := by
  induction c generalizing x with
  | zero =>
    rw [Nat.zero_sub, xtcCountBitsFrom]
    exact ⟨fun _ => toInt_bounds x, fun _ => Nat.zero_le k⟩
  | succ c ih =>
    rcases Nat.lt_or_ge c k with hck | hck
    · -- every place may be used
      rw [show c + 1 - k = 0 by omega]
      have hle := xtcCountBitsFrom_le_self s (c + 1) x
      exact ⟨fun _ => toInt_bounds x, fun _ => by omega⟩
    · have hhalf : (2 : Int) ^ (31 - (c - k)) = 2 * 2 ^ (31 - (c + 1 - k)) := by
        rw [show 31 - (c - k) = 31 - (c + 1 - k) + 1 by omega, pow_succ, mul_comm]
      have hmono : (2 : Int) ^ (31 - (c + 1 - k)) ≤ 2 ^ 30 :=
        pow_le_pow_right₀ (by norm_num) (by omega)
      have hkeep := msb_shiftLeft_one x
      rw [hs] at hkeep
      simp only [xtcCountBitsFrom]
      by_cases hsign : (x <<< 1).msb = s
      · have hrange := hkeep.mp hsign
        rw [if_neg (not_not.mpr hsign), ih (by omega) hck hsign, toInt_shiftLeft_one hrange, hhalf]
        omega
      · rw [if_pos hsign]
        have hout := mt hkeep.mpr hsign
        omega

theorem xtcCountBits_le_iff_range (v : Word) {n : Nat} (hn : 1 ≤ n) (hn32 : n ≤ 32) :
    xtcCountBits v ≤ n ↔ -(2 ^ (n - 1) : Int) ≤ v.toInt ∧ v.toInt < 2 ^ (n - 1) := by
  have hpos : (0 : Int) < 2 ^ (n - 1) := by positivity
  unfold xtcCountBits
  split
  next hzero =>
    have hint : v.toInt = 0 := by rw [hzero]; rfl
    omega
  next =>
    have hloop := xtcCountBitsFrom_le_iff (k := n - 1) (x := v) le_rfl (by omega) rfl
    rw [show 31 - (31 - (n - 1)) = n - 1 by omega] at hloop
    rw [← hloop]
    omega

/-- Assembler and linker have one notion of width. -/
theorem xtcCountBits_le_iff_xtcFitsImm (v : Word) (n : Nat) (hn : 1 ≤ n) (hn32 : n ≤ 32) :
    (xtcCountBits v ≤ n ↔ xtcFitsImm v.toInt n = true) ∧
      (xtcFitsImm v.toInt n = true ↔
        -(2 ^ (n - 1) : Int) ≤ v.toInt ∧ v.toInt ≤ 2 ^ (n - 1) - 1) := by
  have hfits := xtcFitsImm_iff (v := v.toInt) (k := n) (by omega)
  constructor
  · rw [hfits]
    exact xtcCountBits_le_iff_range v hn hn32
  · rw [hfits, Int.le_sub_one_iff]

/-- The least constant of eight bits. -/
theorem xtcCountBits_le_iff_xtcFitsImm_byte :
    xtcCountBits 0xffffff80#32 ≤ 8 ∧ xtcFitsImm (-128) 8 = true := by
  have h := xtcCountBits_le_iff_xtcFitsImm 0xffffff80#32 8 (by decide) (by decide)
  have hfits : xtcFitsImm (0xffffff80#32 : Word).toInt 8 = true := h.2.mpr (by decide)
  exact ⟨h.1.mpr hfits, hfits⟩

end Xtc.Tools
