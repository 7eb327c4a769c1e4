import Xtc.Core.Backend
import Xtc.Tools.Insn

/-!
# Flags — what one instruction leaves for the next

The flags are those of a subtraction, whatever the instruction computes: the carry is its borrow,
and the sign is the sign of a difference that may have overflowed.
-/

namespace Xtc

open Linker Tools

/-! ## The arithmetic unit -/

theorem widened_toNat (a : Word) : (0#1 ++ a : BitVec 33).toNat = a.toNat := by
  have h := Bits.append_toNat 0#1 a
  simpa using h

theorem added_low (a b : Word) (c : Bool) :
    ((0#1 ++ a : BitVec 33) + (0#1 ++ b : BitVec 33) + (if c then 1 else 0)).extractLsb 31 0 =
      a + b + (if c then 1 else 0) := by
  apply BitVec.eq_of_toNat_eq
  have ha := widened_toNat a
  have hb := widened_toNat b
  cases c <;> simp [BitVec.toNat_add, ha, hb]

theorem subtracted_low (a b : Word) (c : Bool) :
    ((0#1 ++ a : BitVec 33) - (0#1 ++ b : BitVec 33) - (if c then 1 else 0)).extractLsb 31 0 =
      a - b - (if c then 1 else 0) := by
  apply BitVec.eq_of_toNat_eq
  have ha := widened_toNat a
  have hb := widened_toNat b
  cases c <;> simp [BitVec.toNat_sub, ha, hb] <;> omega

theorem subtracted_top (a b : Word) (c : Bool) :
    ((0#1 ++ a : BitVec 33) - (0#1 ++ b : BitVec 33) - (if c then 1 else 0)).getLsbD 32 =
      decide (a.toNat < b.toNat + c.toNat) := by
  rw [← BitVec.testBit_toNat, Nat.testBit_eq_decide_div_mod_eq,
    decide_eq_decide]
  have ha := widened_toNat a
  have hb := widened_toNat b
  cases c <;> simp [BitVec.toNat_sub, ha, hb] <;> omega

section Alu

variable (op : AluOp) (a b : Word) (ci cen : Bool) (multR unknown : Word)

theorem alu_add : (alu .add a b ci cen multR unknown).o = a + b + (if ci && cen then 1 else 0) :=
  added_low a b (ci && cen)

theorem alu_sub : (alu .sub a b ci cen multR unknown).o = a - b - (if ci && cen then 1 else 0) :=
  subtracted_low a b (ci && cen)

theorem alu_co : (alu op a b ci cen multR unknown).co =
    decide (a.toNat < b.toNat + (ci && cen).toNat) :=
  subtracted_top a b (ci && cen)

theorem alu_zero : (alu op a b ci false multR unknown).zero = decide (a = b) := by
  have hlow := subtracted_low a b (ci && false)
  rw [Bool.and_false] at hlow
  show ((_ : BitVec 33).extractLsb 31 0 == 0) = _
  rw [Bool.and_false, hlow, beq_eq_decide, decide_eq_decide]
  simp only [Bool.false_eq_true, if_false]
  constructor <;> intro h <;> bv_omega

theorem alu_sign : (alu op a b ci false multR unknown).sign = (a - b).msb := by
  have hlow := subtracted_low a b (ci && false)
  rw [Bool.and_false] at hlow
  have hsub : a - b = a - b - (if false = true then (1 : Word) else 0) := by simp
  rw [hsub, ← hlow]
  show (_ : BitVec 33).getLsbD 31 = _
  rw [Bool.and_false, BitVec.msb_eq_getLsbD_last, BitVec.getLsbD_extractLsb]
  simp

end Alu

/-! ### The halves of a double word -/

theorem low_add (a b : BitVec 64) :
    (a + b).extractLsb 31 0 = a.extractLsb 31 0 + b.extractLsb 31 0 := by
  apply BitVec.eq_of_toNat_eq
  simp [BitVec.extractLsb_toNat, BitVec.toNat_add]

theorem low_sub (a b : BitVec 64) :
    (a - b).extractLsb 31 0 = a.extractLsb 31 0 - b.extractLsb 31 0 := by
  apply BitVec.eq_of_toNat_eq
  simp [BitVec.extractLsb_toNat, BitVec.toNat_sub]
  omega

theorem high_add (a b : BitVec 64) : (a + b).extractLsb 63 32 =
    a.extractLsb 63 32 + b.extractLsb 63 32 +
      if 2 ^ 32 ≤ (a.extractLsb 31 0).toNat + (b.extractLsb 31 0).toNat then 1 else 0 := by
  apply BitVec.eq_of_toNat_eq
  split <;>
  simp [BitVec.extractLsb_toNat, BitVec.toNat_add, Nat.shiftRight_eq_div_pow] at * <;> omega

theorem high_sub (a b : BitVec 64) : (a - b).extractLsb 63 32 =
    a.extractLsb 63 32 - b.extractLsb 63 32 -
      if (a.extractLsb 31 0).toNat < (b.extractLsb 31 0).toNat then 1 else 0 := by
  apply BitVec.eq_of_toNat_eq
  split <;>
  simp [BitVec.extractLsb_toNat, BitVec.toNat_sub, Nat.shiftRight_eq_div_pow] at * <;> omega

theorem add_carry_inj (x : Word) (p q : Prop) [Decidable p] [Decidable q] :
    x + (if p then 1 else 0) = x + (if q then 1 else 0) ↔ (p ↔ q) := by
  by_cases hp : p <;> by_cases hq : q <;> simp [hp, hq]

/-! ## The control fields of an instruction -/

/-- The fields that `case op is` sets and nothing behind it changes. -/
structure Opdec.SameControl (d e : Opdec) : Prop where
  aluOp : d.aluOp = e.aluOp
  useCarry : d.useCarry = e.useCarry
  modifyFlags : d.modifyFlags = e.modifyFlags
  modifyGpr : d.modifyGpr = e.modifyGpr
  modifySpr : d.modifySpr = e.modifySpr
  regSource : d.regSource = e.regSource
  isJump : d.isJump = e.isJump
  enableAlu : d.enableAlu = e.enableAlu
  ismult : d.ismult = e.ismult

theorem opdecImmediate_sameControl (lo : Opcode) (sub : LoadImm) (d : Opdec) :
    (opdecImmediate lo sub d).SameControl d := by
  unfold opdecImmediate
  split
  · split
    · split <;> exact ⟨rfl, rfl, rfl, rfl, rfl, rfl, rfl, rfl, rfl⟩
    · exact ⟨rfl, rfl, rfl, rfl, rfl, rfl, rfl, rfl, rfl⟩
    · split <;> exact ⟨rfl, rfl, rfl, rfl, rfl, rfl, rfl, rfl, rfl⟩
  · exact ⟨rfl, rfl, rfl, rfl, rfl, rfl, rfl, rfl, rfl⟩

theorem opdecExtension_sameControl (lo : Opcode) (op : DecodedOpcode) (p : Bool) (d : Opdec) :
    (opdecExtension lo op p d).SameControl d := by
  unfold opdecExtension
  dsimp only
  split_ifs <;> exact ⟨rfl, rfl, rfl, rfl, rfl, rfl, rfl, rfl, rfl⟩

/-- What `case op is` says of an instruction word. -/
def opdecControl (hi lo : Opcode) (p : Bool) : Opdec :=
  (opdecCase (opdecOp hi lo) p (opdecAluOp hi).2 (opdecDefaults hi lo p)).1

theorem opdec_sameControl (hi lo : Opcode) (p : Bool) :
    (opdec hi lo p).SameControl (opdecControl hi lo p) := by
  have hext := opdecExtension_sameControl lo (opdecOp hi lo) p
    (opdecImmediate lo (opdecCase (opdecOp hi lo) p (opdecAluOp hi).2 (opdecDefaults hi lo p)).2
      (opdecControl hi lo p))
  have himm := opdecImmediate_sameControl lo
    (opdecCase (opdecOp hi lo) p (opdecAluOp hi).2 (opdecDefaults hi lo p)).2
    (opdecControl hi lo p)
  exact ⟨hext.1.trans himm.1, hext.2.trans himm.2, hext.3.trans himm.3, hext.4.trans himm.4,
    hext.5.trans himm.5, hext.6.trans himm.6, hext.7.trans himm.7, hext.8.trans himm.8,
    hext.9.trans himm.9⟩

/-- What an instruction asks of the arithmetic unit and of the registers behind it. -/
structure Arith where
  op : AluOp
  carry : Bool
  flags : Bool
  dest : Bool

/-- The instructions that set or use the carry, and the two that compare. -/
def Tools.Mnemonic.arith : Mnemonic → Option Arith
  | .cadd => some ⟨.add, false, true, true⟩
  | .csub => some ⟨.sub, false, true, true⟩
  | .addc => some ⟨.add, true, false, true⟩
  | .subb => some ⟨.sub, true, false, true⟩
  | .cmp | .cmpi => some ⟨.sub, false, true, false⟩
  | _ => none

structure DecodeRegs.Does (d : DecodeRegs) (x : Arith) : Prop where
  aluOp : d.aluOp = x.op
  useCarry : d.useCarry = x.carry
  modifyFlags : d.modifyFlags = x.flags
  regwe : d.regwe = x.dest
  regSource : x.dest = true → d.regSource = .alu
  sprwe : d.sprwe = false
  isJump : d.isJump = false

/-- The instruction is `m`, with whatever registers, extension word and prefix. -/
def Tools.Mnemonic.At (m : Mnemonic) (d : DecodeRegs) : Prop :=
  ∃ key ext rb ra lo priv pc dr, m.Covers key ∧ ¬(ext = 1 ∧ lo.extractLsb 14 13 = 0b11#2) ∧
    meaning d = meaning (decodeInsn priv pc (insnWord ext key rb ra) lo dr)

theorem Tools.Mnemonic.Covers.does {m : Mnemonic} {key : BitVec 7} (h : m.Covers key) {x : Arith}
    (hx : m.arith = some x) (ext : BitVec 1) (rb ra : BitVec 4) (lo : Opcode)
    (him : ¬(ext = 1 ∧ lo.extractLsb 14 13 = 0b11#2)) (priv : Bool) (pc : Word)
    (dr : DecodeRegs) : (decodeInsn priv pc (insnWord ext key rb ra) lo dr).Does x := by
  have hop := h.opdecOp ext rb ra lo him
  have halu := opdecAluOp_insnWord ext key rb ra
  have hc := opdec_sameControl (insnWord ext key rb ra) lo priv
  suffices hd : (opdecControl (insnWord ext key rb ra) lo priv).aluOp = x.op ∧
      (opdecControl (insnWord ext key rb ra) lo priv).useCarry = x.carry ∧
      (opdecControl (insnWord ext key rb ra) lo priv).modifyFlags = x.flags ∧
      (opdecControl (insnWord ext key rb ra) lo priv).modifyGpr = x.dest ∧
      (opdecControl (insnWord ext key rb ra) lo priv).regSource = .alu ∧
      (opdecControl (insnWord ext key rb ra) lo priv).modifySpr = false ∧
      (opdecControl (insnWord ext key rb ra) lo priv).isJump = false by
    obtain ⟨h1, h2, h3, h4, h5, h6, h7⟩ := hd
    exact ⟨hc.aluOp.trans h1, hc.useCarry.trans h2, hc.modifyFlags.trans h3,
      hc.modifyGpr.trans h4, fun _ => hc.regSource.trans h5, hc.modifySpr.trans h6,
      hc.isJump.trans h7⟩
  unfold opdecControl
  cases m <;> cases hx
  case cmpi =>
    rw [hop]
    exact ⟨rfl, rfl, rfl, rfl, rfl, rfl, rfl⟩
  all_goals
    obtain rfl := h.eq_key rfl
    rw [hop]
    simp only [opdecDefaults, halu]
    exact ⟨rfl, rfl, rfl, rfl, rfl, rfl, rfl⟩

theorem DecodeRegs.Does.of_meaning {d e : DecodeRegs} {x : Arith} (he : e.Does x)
    (h : meaning d = meaning e) (hx : x.flags = true ∨ x.dest = true) : d.Does x := by
  have hcarry : d.useCarry = e.useCarry := congrArg Meaning.useCarry h
  have hflags : d.modifyFlags = e.modifyFlags := congrArg Meaning.modifyFlags h
  have hspr : d.sprwe = e.sprwe := congrArg Meaning.sprwe h
  have hjump : d.isJump = e.isJump := congrArg Meaning.isJump h
  have hdest : (if d.regwe then some (d.dreg, d.regSource) else none) =
      if e.regwe then some (e.dreg, e.regSource) else none := congrArg Meaning.dest h
  have halu : (if d.memoryAccess || d.modifyFlags || (d.regwe && d.regSource == .alu) then
      some d.aluOp else none) = if e.memoryAccess || e.modifyFlags ||
        (e.regwe && e.regSource == .alu) then some e.aluOp else none := congrArg Meaning.aluOp h
  have hregwe : d.regwe = e.regwe := by
    cases hd : d.regwe <;> cases he : e.regwe <;> simp [hd, he] at hdest ⊢
  have hsource : x.dest = true → d.regSource = .alu := by
    intro hx
    have hwe := he.regwe.trans hx
    rw [hregwe, hwe, if_pos rfl, if_pos rfl, Option.some.injEq, Prod.mk.injEq] at hdest
    rw [hdest.2, he.regSource hx]
  refine ⟨?_, hcarry.trans he.useCarry, hflags.trans he.modifyFlags, hregwe.trans he.regwe,
    hsource, hspr.trans he.sprwe, hjump.trans he.isJump⟩
  rw [← he.aluOp]
  rcases hx with hx | hx
  · have hf := he.modifyFlags.trans hx
    simpa [hflags, hf] using halu
  · have hwe := he.regwe.trans hx
    simpa [hregwe, hwe, hsource hx, he.regSource hx] using halu

theorem Tools.Mnemonic.At.does {m : Mnemonic} {d : DecodeRegs} (h : m.At d) {x : Arith}
    (hx : m.arith = some x) : d.Does x := by
  obtain ⟨key, ext, rb, ra, lo, priv, pc, dr, hcovers, him, hmeaning⟩ := h
  refine (hcovers.does hx ext rb ra lo him priv pc dr).of_meaning hmeaning ?_
  cases m <;> cases hx <;> simp

/-! ## The execute stage -/

namespace Execute

def aluB (i : ExecuteInput) (er : ExecuteRegs) : Word :=
  if (drq i).aluSource = .reg then rhs i er else (drq i).imreg

theorem aluOut_eq (i : ExecuteInput) (er : ExecuteRegs) : aluOut i er =
    alu (drq i).aluOp (lhs i er) (aluB i er) (er.psr.getLsbD 30) (drq i).useCarry i.multR
      i.xAlu := rfl

/-- The instruction is `m` on the operands `a` and `b`, and it is executed. -/
structure Executes (m : Mnemonic) (a b : Word) (i : ExecuteInput) (er : ExecuteRegs) : Prop where
  insn : m.At (drq i)
  completes : completes i er = true
  left : lhs i er = a
  right : aluB i er = b

structure Leaves (v : Word) (i : ExecuteInput) (er : ExecuteRegs) : Prop where
  regwe : (next i er).regwe = true
  dreg : (next i er).dreg = (drq i).dreg
  data : ∀ cop, Writeback.result (next i er) cop = v

/-- A clock without an instruction and without a trap. -/
structure Quiet (i : ExecuteInput) (er : ExecuteRegs) : Prop where
  processed : processed i er = false
  doFault : doFault i er = false

section Clock

variable {m : Mnemonic} {a b : Word} {i : ExecuteInput} {er : ExecuteRegs}

theorem Quiet.psr (h : Quiet i er) : (next i er).psr = er.psr := by
  have hc : Execute.completes i er = false := by simp [Execute.completes, h.processed]
  rw [next_psr, h.doFault, psrBefore]
  simp [returns, sprLoad, hc, h.processed]

theorem Executes.leaves {x : Arith} (h : Executes m a b i er) (hx : m.arith = some x)
    (hdest : x.dest = true) (v : Word) : Leaves v i er ↔ (aluOut i er).o = v := by
  have hd := h.insn.does hx
  have hif : ∀ {α : Type} (y z : α), (if Execute.completes i er then y else z) = y :=
    fun y z => if_pos h.completes
  have hwe : (next i er).regwe = true := (hif _ _).trans (hd.regwe.trans hdest)
  have hsource : (next i er).regSource = .alu := (hif _ _).trans (hd.regSource hdest)
  have halur : (next i er).alur = (aluOut i er).o := hif _ _
  have hresult : ∀ cop, Writeback.result (next i er) cop = (aluOut i er).o := by
    intro cop
    rw [Writeback.result, hsource]
    exact halur
  constructor
  · intro hl
    rw [← hresult 0]
    exact hl.data 0
  · intro hv
    exact ⟨hwe, hif _ _, fun cop => (hresult cop).trans hv⟩

/-- An instruction that sets the flags. -/
theorem Executes.psr {x : Arith} (h : Executes m a b i er) (hx : m.arith = some x)
    (hflags : x.flags = true) : (next i er).psr = statusFlags er.psr (aluOut i er).sign
      (aluOut i er).co (aluOut i er).zero i.xOvf := by
  have hd := h.insn.does hx
  have hf := hd.modifyFlags.trans hflags
  rw [next_psr, completes_doFault i er h.completes, psrBefore]
  simp [returns, sprLoad, sprSelect, hd.sprwe, hd.isJump, h.completes, hf]

end Clock

theorem statusFlags_bits (old : Word) (s c z o : Bool) : (statusFlags old s c z o).getLsbD 31 = s ∧
    (statusFlags old s c z o).getLsbD 30 = c ∧ (statusFlags old s c z o).getLsbD 29 = z := by
  simp only [statusFlags, BitVec.getLsbD_append]
  simp

abbrev run (er₀ : ExecuteRegs) (inputs : Nat → ExecuteInput) (n : Nat) : ExecuteRegs :=
  Run.states next er₀ inputs n

section Run

variable {er₀ : ExecuteRegs} {inputs : Nat → ExecuteInput}

/-- From one instruction to the next the status stands still. -/
theorem psr_between {m n : Nat} (hmn : m < n)
    (h : ∀ k, m < k → k < n → Quiet (inputs k) (run er₀ inputs k)) :
    (run er₀ inputs n).psr = (run er₀ inputs (m + 1)).psr := by
  induction n, (show m + 1 ≤ n from hmn) using Nat.le_induction with
  | base => rfl
  | succ n hn ih =>
    have hq := h n (by omega) (by omega)
    exact hq.psr.trans (ih (by omega) fun k hk hk' => h k hk (by omega))

/-! ### Two words -/

variable (er₀ inputs) in
/-- `first` on the low words of `a` and `b` in clock `m`, and `second` on the high words next, in
clock `n`. -/
structure Pair (first second : Mnemonic) (a b : BitVec 64) (m n : Nat) : Prop where
  order : m < n
  low : Executes first (a.extractLsb 31 0) (b.extractLsb 31 0) (inputs m) (run er₀ inputs m)
  high : Executes second (a.extractLsb 63 32) (b.extractLsb 63 32) (inputs n) (run er₀ inputs n)
  between : ∀ k, m < k → k < n → Quiet (inputs k) (run er₀ inputs k)

variable (er₀ inputs) in
def PairHolds (v : BitVec 64) (m n : Nat) : Prop :=
  Leaves (v.extractLsb 31 0) (inputs m) (run er₀ inputs m) ∧
    Leaves (v.extractLsb 63 32) (inputs n) (run er₀ inputs n)

/-- The carry the second instruction gets is the borrow of the first one's operands. -/
theorem Pair.carry {first second : Mnemonic} {a b : BitVec 64} {m n : Nat} {x : Arith}
    (h : Pair er₀ inputs first second a b m n) (hx : first.arith = some x)
    (hflags : x.flags = true) (hcarry : x.carry = false) : (run er₀ inputs n).psr.getLsbD 30 =
      decide ((a.extractLsb 31 0).toNat < (b.extractLsb 31 0).toNat) := by
  have hpsr : (run er₀ inputs n).psr = statusFlags _ _ _ _ _ :=
    (psr_between h.order h.between).trans (h.low.psr hx hflags)
  simp only [hpsr, (statusFlags_bits ..).2.1]
  rw [aluOut_eq, alu_co, h.low.left, h.low.right, (h.low.insn.does hx).useCarry, hcarry,
    Bool.and_false]
  rfl

theorem Pair.low_result {first second : Mnemonic} {a b : BitVec 64} {m n : Nat} {x : Arith}
    (h : Pair er₀ inputs first second a b m n) (hx : first.arith = some x)
    (hcarry : x.carry = false) : (aluOut (inputs m) (run er₀ inputs m)).o =
      (alu x.op (a.extractLsb 31 0) (b.extractLsb 31 0) false false (inputs m).multR
        (inputs m).xAlu).o := by
  rw [aluOut_eq, h.low.left, h.low.right, (h.low.insn.does hx).useCarry,
    (h.low.insn.does hx).aluOp, hcarry]
  simp only [alu, Bool.and_false]

theorem Pair.high_result {first second : Mnemonic} {a b : BitVec 64} {m n : Nat} {x : Arith}
    (h : Pair er₀ inputs first second a b m n) (hx : second.arith = some x) :
    (aluOut (inputs n) (run er₀ inputs n)).o =
      (alu x.op (a.extractLsb 63 32) (b.extractLsb 63 32) ((run er₀ inputs n).psr.getLsbD 30)
        x.carry (inputs n).multR (inputs n).xAlu).o := by
  rw [aluOut_eq, h.high.left, h.high.right, (h.high.insn.does hx).useCarry,
    (h.high.insn.does hx).aluOp]

/-- Adding in two words is right exactly if the low words carry when their difference borrows;
subtracting in two words is always right. -/
theorem two_words (er₀ : ExecuteRegs) (inputs : Nat → ExecuteInput) (a b : BitVec 64) (m n : Nat) :
    (Pair er₀ inputs .cadd .addc a b m n →
      (PairHolds er₀ inputs (a + b) m n ↔
        (2 ^ 32 ≤ (a.extractLsb 31 0).toNat + (b.extractLsb 31 0).toNat ↔
          (a.extractLsb 31 0).toNat < (b.extractLsb 31 0).toNat))) ∧
      (Pair er₀ inputs .csub .subb a b m n → PairHolds er₀ inputs (a - b) m n) := by
  constructor
  · intro h
    have hlow : (aluOut (inputs m) (run er₀ inputs m)).o = (a + b).extractLsb 31 0 := by
      rw [h.low_result rfl rfl, alu_add, low_add]
      simp
    have hhigh : (aluOut (inputs n) (run er₀ inputs n)).o = a.extractLsb 63 32 +
        b.extractLsb 63 32 + if (a.extractLsb 31 0).toNat < (b.extractLsb 31 0).toNat
          then 1 else 0 := by
      rw [h.high_result rfl, alu_add, h.carry rfl rfl rfl]
      simp
    rw [PairHolds, h.low.leaves rfl rfl, h.high.leaves rfl rfl, hlow, hhigh, high_add,
      and_iff_right rfl, add_carry_inj]
    exact Iff.comm
  · intro h
    have hlow : (aluOut (inputs m) (run er₀ inputs m)).o = (a - b).extractLsb 31 0 := by
      rw [h.low_result rfl rfl, alu_sub, low_sub]
      simp
    have hhigh : (aluOut (inputs n) (run er₀ inputs n)).o = (a - b).extractLsb 63 32 := by
      rw [h.high_result rfl, alu_sub, h.carry rfl rfl rfl, high_sub]
      simp
    exact ⟨(h.low.leaves rfl rfl _).mpr hlow, (h.high.leaves rfl rfl _).mpr hhigh⟩

end Run

/-! ### The instruction in front of the stage, and nothing else -/

def inFront (d : DecodeRegs) (a b : Word) : ExecuteInput :=
  Backend.executeIn (.rest (fetched 0 0 false))
    { Backend.reset with
      fdr := { Backend.reset.fdr with drq := { d with valid := true } }, rr1 := a, rr2 := b } false

/-- Instruction `m` without extension, on the operands `a` and `b`. -/
def alone (m : Mnemonic) (a b : Word) : ExecuteInput :=
  inFront (decodeInsn true 0 (insnWord 0 m.key 2 1) 0 decodeReset) a b

def inTurn (first second : Mnemonic) (a b : BitVec 64) (k : Nat) : ExecuteInput :=
  if k = 0 then alone first (a.extractLsb 31 0) (b.extractLsb 31 0)
  else alone second (a.extractLsb 63 32) (b.extractLsb 63 32)

theorem at_alone {m : Mnemonic} (h : m.Covers m.key) (a b : Word) : m.At (drq (alone m a b)) :=
  ⟨m.key, 0, 2, 1, 0, true, 0, decodeReset, h, by simp, rfl⟩

theorem pair_csub : Pair Execute.reset (inTurn .csub .subb 0x100000000 1) .csub .subb
    0x100000000 1 0 1 where
  order := by decide
  low := ⟨at_alone (by decide) _ _, by decide, by decide, by decide⟩
  high := ⟨at_alone (by decide) _ _, by decide, by decide, by decide⟩
  between := by omega

theorem pair_cadd : Pair Execute.reset (inTurn .cadd .addc 0 1) .cadd .addc 0 1 0 1 where
  order := by decide
  low := ⟨at_alone (by decide) _ _, by decide, by decide, by decide⟩
  high := ⟨at_alone (by decide) _ _, by decide, by decide, by decide⟩
  between := by omega

theorem two_words_borrow :
    PairHolds Execute.reset (inTurn .csub .subb 0x100000000 1) (0x100000000 - 1) 0 1 ∧
      (PairHolds Execute.reset (inTurn .cadd .addc 0 1) (0 + 1) 0 1 ↔
        (2 ^ 32 ≤
            ((0 : BitVec 64).extractLsb 31 0).toNat + ((1 : BitVec 64).extractLsb 31 0).toNat ↔
          ((0 : BitVec 64).extractLsb 31 0).toNat < ((1 : BitVec 64).extractLsb 31 0).toNat)) :=
  ⟨(two_words _ _ _ _ _ _).2 pair_csub, (two_words _ _ _ _ _ _).1 pair_cadd⟩

/-- `0 + 1` leaves `2 ^ 32 + 1`: the low words do not carry, but their difference borrows. -/
theorem cadd_borrows : Pair Execute.reset (inTurn .cadd .addc 0 1) .cadd .addc 0 1 0 1 ∧
    ¬ PairHolds Execute.reset (inTurn .cadd .addc 0 1) (0 + 1) 0 1 := by
  refine ⟨pair_cadd, ?_⟩
  intro h
  have hhigh := h.2.data 0
  revert hhigh
  decide

end Execute

end Xtc
