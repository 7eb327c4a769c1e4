import Xtc.Softsim.Executor

/-!
# Compare — comparisons and conditional branches of the simulator `softsim`

`cmp` takes its flags from a difference in 64 bits: `zero` and `carry` are then equality and the
unsigned order, and `sign` is the upper bit of the difference in 32 bits.  A signed branch looks at
`sign` only, so it is right if and only if the signed difference fits into a word; `briugt` looks at
`carry` only, and is taken at equality too.  `cmpi` extends the sign of its operand into the upper
half, which turns the carry around for every negative one.
-/

namespace Xtc

namespace Softsim

/-! ## The difference in 64 bits -/

section Difference

variable (a b : Word)

theorem difference_toNat : (a.setWidth 64 - b.setWidth 64).toNat =
    if b.toNat ≤ a.toNat then a.toNat - b.toNat else 2 ^ 64 + a.toNat - b.toNat := by
  rw [BitVec.toNat_sub, BitVec.toNat_setWidth, BitVec.toNat_setWidth]
  split <;> omega

theorem difference_eq_zero : (a.setWidth 64 - b.setWidth 64 == 0) = decide (a = b) := by
  rw [Bool.eq_iff_iff, beq_iff_eq, decide_eq_true_eq, ← BitVec.toNat_inj, ← BitVec.toNat_inj,
    difference_toNat]
  change _ = 0 ↔ _
  split <;> omega

theorem difference_carry :
    (a.setWidth 64 - b.setWidth 64).getLsbD 32 = decide (a.toNat < b.toNat) := by
  rw [BitVec.getLsbD, difference_toNat, Nat.testBit_eq_decide_div_mod_eq, decide_eq_decide]
  split <;> omega

theorem difference_sign : (a.setWidth 64 - b.setWidth 64).getLsbD 31 = (a - b).msb := by
  rw [BitVec.getLsbD, difference_toNat, Nat.testBit_eq_decide_div_mod_eq, BitVec.msb_eq_decide,
    BitVec.toNat_sub, decide_eq_decide]
  split <;> omega

theorem setFlags_difference (cpu : Cpu) :
    setFlags (a.setWidth 64 - b.setWidth 64) cpu =
      { cpu with zero := decide (a = b), carry := decide (a.toNat < b.toNat),
                 sign := (a - b).msb } := by
  rw [setFlags, difference_eq_zero, difference_carry, difference_sign]

end Difference

/-! ## Conditional branches -/

/-- The branches `brie` to `briuge`, by the condition in their names. -/
inductive Relation
  | e | ne | lt | le | gt | ge | ult | ule | ugt | uge
  deriving DecidableEq, Repr

namespace Relation

def handler : Relation → Opcode → Cpu → Cpu
  | .e => cflowBrie
  | .ne => cflowBrine
  | .lt => cflowBrilt
  | .le => cflowBrile
  | .gt => cflowBrigt
  | .ge => cflowBrige
  | .ult => cflowBriult
  | .ule => cflowBriule
  | .ugt => cflowBriugt
  | .uge => cflowBriuge

/-- What the name says about two words. -/
def holds (a b : Word) : Relation → Prop
  | .e => a = b
  | .ne => a ≠ b
  | .lt => a.toInt < b.toInt
  | .le => a.toInt ≤ b.toInt
  | .gt => b.toInt < a.toInt
  | .ge => b.toInt ≤ a.toInt
  | .ult => a.toNat < b.toNat
  | .ule => a.toNat ≤ b.toNat
  | .ugt => b.toNat < a.toNat
  | .uge => b.toNat ≤ a.toNat

instance (a b : Word) (k : Relation) : Decidable (k.holds a b) := by
  cases k <;> unfold holds <;> infer_instance

/-- After `cmp` on `a` and `b` the branch sets `branchNext` exactly when its relation holds. -/
def Agrees (a b : Word) (k : Relation) : Prop :=
  ∀ (cmp br : Opcode) (cpu : Cpu), cpu.regs cmp.r1 = a → cpu.regs cmp.r2 = b →
    k.handler br (aluCmp cmp cpu) =
      if k.holds a b then { aluCmp cmp cpu with branchNext := cpu.npc + br.immed }
      else aluCmp cmp cpu

/-- The difference of two signed words is one. -/
def Fits (a b : Word) : Prop := -2 ^ 31 ≤ a.toInt - b.toInt ∧ a.toInt - b.toInt < 2 ^ 31

/-- Where the flags suffice for the branch. -/
def Decided (a b : Word) : Relation → Prop
  | .lt | .le | .gt | .ge => Fits a b
  | .ugt => a ≠ b
  | .e | .ne | .ult | .ule | .uge => True

def taken (a b : Word) : Relation → Bool
  | .e => decide (a = b)
  | .ne => !decide (a = b)
  | .lt => (a - b).msb
  | .le => (a - b).msb || decide (a = b)
  | .gt => !(a - b).msb && !decide (a = b)
  | .ge => !(a - b).msb
  | .ult => decide (a.toNat < b.toNat)
  | .ule => decide (a.toNat < b.toNat) || decide (a = b)
  | .ugt => !decide (a.toNat < b.toNat)
  | .uge => !decide (a.toNat < b.toNat) || decide (a = b)

variable {a b : Word}

theorem handler_aluCmp {cmp : Opcode} {cpu : Cpu} (br : Opcode) (k : Relation)
    (ha : cpu.regs cmp.r1 = a) (hb : cpu.regs cmp.r2 = b) :
    k.handler br (aluCmp cmp cpu) = branch br (k.taken a b) (aluCmp cmp cpu) := by
  rw [aluCmp, ha, hb, setFlags_difference]
  cases k <;> rfl

theorem msb_sub (a b : Word) :
    ((a - b).msb = true ↔ a.toInt < b.toInt) ↔ Fits a b := by
  have ha := BitVec.toInt_eq_toNat_cond a
  have hb := BitVec.toInt_eq_toNat_cond b
  rw [BitVec.msb_eq_decide, BitVec.toNat_sub, decide_eq_true_eq, Fits]
  omega

theorem msb_sub_not (a b : Word) :
    ((a - b).msb = false ↔ b.toInt ≤ a.toInt) ↔ Fits a b := by
  rw [← msb_sub, ← Bool.not_eq_true, ← not_lt, not_iff_not]

theorem fits_self (a : Word) : Fits a a := by
  unfold Fits
  omega

theorem toInt_lt_iff_le (h : a ≠ b) : a.toInt < b.toInt ↔ a.toInt ≤ b.toInt := by
  have hne : a.toInt ≠ b.toInt := fun heq => h (BitVec.toInt_inj.mp heq)
  omega

/-- The flags tell the relation if and only if it is one they decide. -/
theorem taken_iff (a b : Word) (k : Relation) :
    (k.taken a b = true ↔ k.holds a b) ↔ k.Decided a b := by
  have hnat : a = b ↔ a.toNat = b.toNat := BitVec.toNat_inj.symm
  cases k <;> simp only [taken, holds, Decided, Bool.or_eq_true, Bool.and_eq_true,
    Bool.not_eq_true', decide_eq_true_eq, decide_eq_false_iff_not, iff_true]
  case lt => exact msb_sub a b
  case ge => exact msb_sub_not a b
  -- at equality both branches are right, and elsewhere they are `brilt` and `brige`
  case le =>
    by_cases heq : a = b
    · subst heq
      simp [fits_self]
    · rw [or_iff_left heq, ← toInt_lt_iff_le heq]
      exact msb_sub a b
  case gt =>
    by_cases heq : a = b
    · subst heq
      simp [fits_self]
    · rw [and_iff_left heq, toInt_lt_iff_le (Ne.symm heq)]
      exact msb_sub_not a b
  case ule => rw [hnat]; omega
  case ugt => rw [ne_eq, hnat]; omega
  case uge => rw [hnat]; omega

/-! ## The branches as a whole -/

def comparing (a b : Word) : Cpu where
  memory := fun _ => 0
  regs := fun r => if r = 1 then a else b
  npc := 0
  spr := fun _ => 0
  zero := false
  carry := false
  sign := false
  imm := 0
  imflag := false
  branchNext := -1
  resetImmed := true

def cmpR2R1 : Opcode := ⟨.cmp, 1, 2, 0, 0x1621, false⟩

theorem agrees_iff_taken (a b : Word) (k : Relation) :
    k.Agrees a b ↔ (k.taken a b = true ↔ k.holds a b) := by
  constructor
  · intro hagrees
    have h := hagrees cmpR2R1 cmpR2R1 (comparing a b) rfl rfl
    rw [handler_aluCmp cmpR2R1 k rfl rfl] at h
    -- the branch goes to 0 from a state without one
    have hnext : (if k.taken a b then (0 : Word) else -1) = if k.holds a b then 0 else -1 := by
      have := congrArg Cpu.branchNext h
      rw [branch, apply_ite Cpu.branchNext, apply_ite Cpu.branchNext] at this
      exact this
    by_cases ht : k.taken a b = true <;> by_cases hh : k.holds a b <;> simp [ht, hh] at hnext ⊢
  · intro htaken cmp br cpu ha hb
    rw [handler_aluCmp br k ha hb, branch]
    simp only [htaken]
    rfl

/-- A conditional branch agrees with arithmetic if and only if the flags of `cmp` decide it: the
signed ones where the difference fits into a word, and `briugt` where the operands differ. -/
theorem branch_agrees_iff (a b : Word) (k : Relation) : k.Agrees a b ↔ k.Decided a b :=
  (agrees_iff_taken a b k).trans (taken_iff a b k)

/-- `brilt` is not taken from the least signed word to 1, and `briugt` is taken at equality. -/
theorem brilt_briugt_wrong : ¬ Agrees 0x80000000 1 .lt ∧ ¬ Agrees 5 5 .ugt := by
  rw [agrees_iff_taken, agrees_iff_taken]
  decide

end Relation

/-! ## A comparison with an immediate -/

def Cpu.flags (cpu : Cpu) : Bool × Bool × Bool := (cpu.zero, cpu.carry, cpu.sign)

/-- `cmpi` sets the flags for `a` and the immediate `v` as `cmp` does for `a` and a register with
`v`. -/
def SameFlags (a v : Word) : Prop :=
  ∀ (cmpi cmp : Opcode) (c c' : Cpu), cmpi.immed = v → c.regs cmpi.r1 = a →
    c'.regs cmp.r1 = a → c'.regs cmp.r2 = v → (regCmpi cmpi c).flags = (aluCmp cmp c').flags

/-- With the sign in the upper half the carry is turned around. -/
theorem extended_carry {a v : Word} (h : v.msb = true) :
    (a.setWidth 64 - v.signExtend 64).getLsbD 32 = decide (v.toNat ≤ a.toNat) := by
  have hv : 2 ^ 32 ≤ 2 * v.toNat := BitVec.msb_eq_true_iff_two_mul_ge.mp h
  rw [BitVec.getLsbD, BitVec.toNat_sub, BitVec.toNat_signExtend, h, BitVec.toNat_setWidth,
    BitVec.toNat_setWidth, Nat.testBit_eq_decide_div_mod_eq, decide_eq_decide]
  simp only [if_true]
  omega

theorem sameFlags_of_msb {a v : Word} (h : v.msb = false) : SameFlags a v := by
  intro cmpi cmp c c' himm ha ha' hv
  rw [regCmpi, aluCmp, himm, ha, ha', hv, BitVec.signExtend_eq_setWidth_of_msb_false h]
  rfl

theorem not_sameFlags_of_msb {a v : Word} (h : v.msb = true) : ¬ SameFlags a v := by
  intro hsame
  have hflags := hsame ⟨.cmpi, 1, 0, v, 0, false⟩ Relation.cmpR2R1 (Relation.comparing a v)
    (Relation.comparing a v) rfl rfl rfl rfl
  have hcarry : (a.setWidth 64 - v.signExtend 64).getLsbD 32 =
      (a.setWidth 64 - v.setWidth 64).getLsbD 32 := congrArg (·.2.1) hflags
  rw [extended_carry h, difference_carry, decide_eq_decide] at hcarry
  omega

/-- The flags are the same if and only if the immediate is not negative. -/
theorem sameFlags_iff (a v : Word) : SameFlags a v ↔ 0 ≤ v.toInt := by
  have hmsb : v.msb = decide (v.toInt < 0) := BitVec.msb_eq_toInt
  by_cases h : v.toInt < 0
  · rw [decide_eq_true h] at hmsb
    exact iff_of_false (not_sameFlags_of_msb hmsb) (by omega)
  · rw [decide_eq_false h] at hmsb
    exact iff_of_true (sameFlags_of_msb hmsb) (by omega)

/-- `cmpi -1, r1` does not find its operand equal to a register with -1. -/
theorem cmpi_minus_one :
    ∃ o, decodeSingleOpcode (Relation.comparing (-1) 0) 0x7FF1 = some o ∧ o.opv = .cmpi ∧
      o.immed = -1 ∧ ¬ SameFlags (-1) o.immed :=
  ⟨⟨.cmpi, 1, 15, -1, 0x7FF1, false⟩, by decide, rfl, rfl, not_sameFlags_of_msb (by decide)⟩

end Softsim

end Xtc
