import Xtc.Core.Flags
import Xtc.Tools.Kept
import Xtc.Tools.Stated

/-!
# Operand — the constant of an instruction with the `i` suffix

From the line to the second operand of the ALU: which of the two encodings `md_assemble` takes, what
the decoder makes of it, and what `execute` then selects.
-/

namespace Xtc.Tools

open Xtc.Linker

/-- `<m>i rb, ra, c`. -/
def Line.immediate (m : Mnemonic) (rb ra : Fin 16) (c : Word) : Line :=
  ⟨m, some ⟨none, .immed⟩,
    [.reg (rb.castLE sixteen_le_registers), .reg (ra.castLE sixteen_le_registers),
      .imm (.constant c)]⟩

/-- The operation of the line is carried out with `c` for its second operand, whatever stands
behind the words and whatever the registers hold. -/
def Line.ReachesAlu (l : Line) (priv : Bool) (c : Word) (words : List Opcode) : Prop :=
  ∀ next pc dr i er, dr.imflag = false → Execute.drq i = decodeSeq priv next pc dr words →
    l.executes priv = some (executed (Execute.drq i)) ∧ Execute.aluB i er = c

/-! ## The words -/

def immediateWords (m : Mnemonic) (rb ra : Fin 16) (c : Word) : List Opcode :=
  if xtcCountBits c ≤ 8 then
    [insnWord 1 m.key (BitVec.ofNat 4 rb) (BitVec.ofNat 4 ra), e8Low 0 (c.setWidth 8)]
  else
    [e24High c.toInt, e24Low 0 c.toInt,
      insnWord 0 m.key (BitVec.ofNat 4 rb) (BitVec.ofNat 4 ra)]

theorem requireGpr_castLE (r : Fin 16) : requireGpr (r.castLE sixteen_le_registers) = .ok () := by
  simp [requireGpr, checkGprReg, r.isLt]

theorem parseImm_constant (c : Word) :
    parseImm minImm maxImm [.imm (.constant c)] = .ok (.constant c, []) := by
  have hlo : -2 ^ 31 ≤ c.toInt := BitVec.le_toInt c
  have hhi : c.toInt < 2 ^ 31 := BitVec.toInt_lt
  have hin : ¬ (c.toInt < minImm ∨ maxImm < c.toInt) := by
    unfold minImm maxImm
    omega
  exact if_neg hin

section Immediate

variable {m : Mnemonic} (hty : m.entry.instType = .r1R2) (rb ra : Fin 16) (c : Word)

include hty

theorem ne_imm_of_r1R2 : m ≠ .imm := by
  rintro rfl
  cases hty

/-- Every constant is accepted. -/
theorem mdAssemble_immediate (hext : m.entry.ext = .canExtAll) :
    (Line.immediate m rb ra c).mdAssemble = .ok ⟨immediateWords m rb ra c, none⟩ := by
  have hwords := Line.immediate_words (l := Line.immediate m rb ra c) (ne_imm_of_r1R2 hty) hty
    ra rb c
  have hcheck : (Line.immediate m rb ra c).checkExtension = .ok () := by
    simp [Line.checkExtension, Line.immediate, hext]
  have hreg : (Line.immediate m rb ra c).assembleR1R2 (ra.castLE sixteen_le_registers)
      (rb.castLE sixteen_le_registers) [.imm (.constant c)] =
        .ok ⟨immediateWords m rb ra c, none⟩ := by
    unfold Line.assembleR1R2
    rw [requireGpr_castLE, requireGpr_castLE]
    show parseImm minImm maxImm [.imm (.constant c)] >>= _ = _
    rw [parseImm_constant]
    exact congrArg (fun w => Except.ok (⟨w, none⟩ : Frag)) hwords
  unfold Line.mdAssemble
  rw [hcheck, show (Line.immediate m rb ra c).instType = .r1R2 from hty]
  exact hreg

/-! ## The operand -/

theorem class_of_r1R2 (ext : BitVec 1) (rb ra : BitVec 4) :
    ((insnWord ext m.key rb ra).extractLsb 14 12).toNat < 4 := by
  have hkey : (insnWord ext m.key rb ra).extractLsb 14 8 = m.key := by
    apply BitVec.eq_of_getLsbD_eq
    intro i hi
    simp only [insnWord, BitVec.getLsbD_extractLsb, BitVec.getLsbD_append]
    interval_cases i <;> simp
  rw [class_eq, hkey]
  apply (Mnemonic.covers_key (ne_imm_of_r1R2 hty)).class_lt
  rw [hty]
  decide

variable (priv : Bool) (next : Opcode) (pc : Word) {dr : DecodeRegs} (hdr : dr.imflag = false)

include hdr

/-- The immediate that the decoder has gathered when the instruction is complete. -/
theorem imreg_immediateWords :
    (decodeSeq priv next pc dr (immediateWords m rb ra c)).imreg =
      if xtcCountBits c ≤ 8 then c else (BitVec.ofInt 24 c.toInt).signExtend 32 := by
  unfold immediateWords
  by_cases hbits : xtcCountBits c ≤ 8
  · obtain ⟨hlo, hhi⟩ := (xtcCountBits_le_iff c).mp hbits
    have hnumber : HasNumber (insnWord 1 m.key (BitVec.ofNat 4 rb) (BitVec.ofNat 4 ra))
        (e8Low 0 (c.setWidth 8)) := ⟨by rw [insnWord_ext]; rfl, e8Low_load _ _⟩
    have hnot : ¬((insnWord 1 m.key (BitVec.ofNat 4 rb) (BitVec.ofNat 4 ra)).getLsbD 15 = true ∧
        (e8Low 0 (c.setWidth 8)).extractLsb 14 13 = 0b11#2) := by
      rw [e8Low_load]
      exact fun h => absurd h.2 (by decide)
    rw [if_pos hbits, if_pos hbits, decodeSeq_ext,
      decodeInsn_imreg_short priv pc (class_of_r1R2 hty 1 _ _) hnot hdr, if_pos hnumber, e8Low_imm]
    have hbyte : c.setWidth 8 = BitVec.ofInt 8 c.toInt :=
      (BitVec.signExtend_eq_setWidth_of_le c (by omega)).symm
    rw [hbyte, Bits.signExtend_ofInt 32 (by decide) (by omega) (by omega), BitVec.ofInt_toInt]
  · obtain ⟨hflag, -, himreg⟩ := decodeInsn_e24 priv pc 0 c.toInt hdr
    rw [if_neg hbits, if_neg hbits, decodeSeq_e24_short,
      decodeInsn_imreg_prefixed priv _ (class_of_r1R2 hty 0 _ _) (by rw [insnWord_ext]; rfl) hflag,
      himreg]

end Immediate

theorem aluB_of_immediate {i : ExecuteInput} {er : ExecuteRegs}
    (h : (executed (Execute.drq i)).immediate = true) :
    Execute.aluB i er = (Execute.drq i).imreg := by
  have hsource : (Execute.drq i).aluSource = .immed := (of_decide_eq_true h).2
  unfold Execute.aluB
  rw [if_neg (by rw [hsource]; decide)]

theorem opdecImmediate_aluSource (lo : Opcode) (l : LoadImm) (d : Opdec) :
    (opdecImmediate lo l d).aluSource = d.aluSource := by
  unfold opdecImmediate
  cases l <;> dsimp only <;> split_ifs <;> rfl

/-- A sign extension has no immediate form. -/
theorem aluSource_sext {m : Mnemonic} (hm : m = .sextb ∨ m = .sexts) (ext : BitVec 1)
    (rb ra : BitVec 4) {lo : Opcode} (hlo : ¬(ext = 1 ∧ lo.extractLsb 14 13 = 0b11#2))
    (priv : Bool) (pc : Word) (dr : DecodeRegs) :
    (decodeInsn priv pc (insnWord ext m.key rb ra) lo dr).aluSource = .reg := by
  have hcovers : m.Covers m.key := by
    obtain rfl | rfl := hm <;> decide
  have hop := hcovers.opdecOp ext rb ra lo hlo
  have hcase : ∀ d f, (opdecCase (m.executes false 0 0 0).op priv f d).1.aluSource = .reg ∧
      (m.executes false 0 0 0).op ≠ .alu := by
    intro d f
    obtain rfl | rfl := hm <;> exact ⟨rfl, nofun⟩
  show (opdec (insnWord ext m.key rb ra) lo priv).aluSource = .reg
  rw [opdec, hop]
  generalize opdecDefaults (insnWord ext m.key rb ra) lo priv = d
  generalize (opdecAluOp (insnWord ext m.key rb ra)).2 = f
  obtain ⟨hsource, halu⟩ := hcase d f
  generalize opdecCase (m.executes false 0 0 0).op priv f d = e at hsource ⊢
  have himm := (opdecImmediate_aluSource lo e.2 e.1).trans hsource
  unfold opdecExtension
  simp only [halu, false_and, if_false]
  split_ifs <;> exact himm

theorem aluSource_immediateWords {m : Mnemonic} (hm : m = .sextb ∨ m = .sexts) (rb ra : Fin 16)
    (c : Word) (priv : Bool) (next : Opcode) (pc : Word) (dr : DecodeRegs) :
    (decodeSeq priv next pc dr (immediateWords m rb ra c)).aluSource = .reg := by
  unfold immediateWords
  split
  · rw [decodeSeq_ext]
    apply aluSource_sext hm
    rw [e8Low_load]
    exact fun h => absurd h.2 (by decide)
  · rw [decodeSeq_e24_short]
    exact aluSource_sext hm _ _ _ (by simp) _ _ _

theorem signExtend24_iff (c : Word) : (BitVec.ofInt 24 c.toInt).signExtend 32 = c ↔
    -2 ^ 23 ≤ c.toInt ∧ c.toInt < 2 ^ 23 := by
  constructor
  · intro h
    have hlo := BitVec.le_toInt (BitVec.ofInt 24 c.toInt)
    have hhi := BitVec.toInt_lt (x := BitVec.ofInt 24 c.toInt)
    rw [← h, BitVec.toInt_signExtend_of_le (by decide)]
    exact ⟨hlo, hhi⟩
  · rintro ⟨hlo, hhi⟩
    rw [Bits.signExtend_ofInt 32 (by decide) hlo hhi, BitVec.ofInt_toInt]

/-! ## From the line to the operand -/

section Reaches

variable {m : Mnemonic} (hty : m.entry.instType = .r1R2) (rb ra : Fin 16) (c : Word) (priv : Bool)

include hty in
theorem executes_immediate : (Line.immediate m rb ra c).executes priv =
    some (((m.executes priv 0 (BitVec.ofNat 4 rb) (BitVec.ofNat 4 ra)).withImmediate
      (regaddress priv (BitVec.ofNat 4 rb))).withCondition .unconditional) := by
  have hgpr : ∀ r : Fin 16, gpr (r.castLE sixteen_le_registers) = some (BitVec.ofNat 4 r) := by
    intro r
    simp [gpr, r.isLt]
  apply Line.executes_eq priv (f := ⟨0, BitVec.ofNat 4 rb, BitVec.ofNat 4 ra, [.imm (.constant c)]⟩)
  · unfold Line.fields
    rw [show (Line.immediate m rb ra c).instType = .r1R2 from hty]
    simp [Line.immediate, hgpr]
  · rfl

include hty in
theorem executed_immediate_iff (next : Opcode) (pc : Word) {dr : DecodeRegs}
    (hdr : dr.imflag = false) : (Line.immediate m rb ra c).executes priv =
      some (executed (decodeSeq priv next pc dr (immediateWords m rb ra c))) ↔
    (-128 ≤ c.toInt ∧ c.toInt < 128) ∨ m.takesImmediate = false := by
  have hm := ne_imm_of_r1R2 hty
  have hkept := Line.kept_immed (l := Line.immediate m rb ra c) priv next pc hm hty ra rb c hdr
  simp only [Line.immediate_words (l := Line.immediate m rb ra c) hm hty] at hkept
  rw [executes_immediate hty, Option.some.injEq]
  exact hkept.trans (or_congr_right (and_iff_right rfl))

/-- The instruction in front of `execute`, with `b` in its second register. -/
def facing (d : DecodeRegs) (b : Word) : ExecuteInput :=
  let i := Execute.inFront d 0 b
  { i with fdui := { i.fdui with r := { i.fdui.r with drq := d }, alufwb := false } }

theorem eq_addr_or_sext {m : Mnemonic} (hty : m.entry.instType = .r1R2)
    (hext : m.entry.ext = .canExtAll) (h : m.takesImmediate = false) :
    m = .addr ∨ m = .sextb ∨ m = .sexts := by
  revert hty hext h
  cases m <;> decide

theorem withImmediate_immediate {m : Mnemonic} (h : m.takesImmediate = true) (p : Bool)
    (i : BitVec 2) (rb ra : BitVec 4) (b : RegAddress) (cond : Condition) :
    (((m.executes p i rb ra).withImmediate b).withCondition cond).immediate = true := by
  cases m <;> first | rfl | cases h

/-- The constant reaches the ALU exactly if it fits the extension word; for `addr`, which has no
register form, if it fits the prefix. -/
theorem immediate_reaches_iff (hty : m.entry.instType = .r1R2) (hext : m.entry.ext = .canExtAll)
    (rb ra : Fin 16) (c : Word) (priv : Bool) :
    (∃ frag, (Line.immediate m rb ra c).mdAssemble = .ok frag ∧ frag.fixup = none ∧
      (Line.immediate m rb ra c).ReachesAlu priv c frag.words) ↔
    m.takesImmediate = true ∧ -128 ≤ c.toInt ∧ c.toInt < 128 ∨
      m = .addr ∧ -2 ^ 23 ≤ c.toInt ∧ c.toInt < 2 ^ 23 := by
  have hasm := mdAssemble_immediate hty rb ra c hext
  constructor
  · rintro ⟨frag, hfrag, -, hreach⟩
    obtain rfl := Except.ok.inj (hasm.symm.trans hfrag)
    set d := decodeSeq priv 0 0 decodeReset (immediateWords m rb ra c) with hd
    obtain ⟨hexec, hB⟩ := hreach 0 0 decodeReset (facing d (c + 1)) Execute.reset rfl rfl
    have hreset : decodeReset.imflag = false := rfl
    have himreg := imreg_immediateWords hty rb ra c priv 0 0 hreset
    have hkept := (executed_immediate_iff hty rb ra c priv 0 0 hreset).mp hexec
    cases htakes : m.takesImmediate with
    | true =>
      obtain hfits | hno := hkept
      · exact .inl ⟨rfl, hfits⟩
      · rw [hno] at htakes
        cases htakes
    | false =>
      obtain rfl | hm := eq_addr_or_sext hty hext htakes
      · refine .inr ⟨rfl, ?_⟩
        rw [executes_immediate hty] at hexec
        have hform : (executed (Execute.drq (facing d (c + 1)))).immediate = true := by
          rw [← Option.some.inj hexec]
          rfl
        rw [aluB_of_immediate hform] at hB
        have hc : (if xtcCountBits c ≤ 8 then c else (BitVec.ofInt 24 c.toInt).signExtend 32) = c :=
          himreg.symm.trans hB
        by_cases hbits : xtcCountBits c ≤ 8
        · have := (xtcCountBits_le_iff c).mp hbits
          omega
        · rw [if_neg hbits] at hc
          exact (signExtend24_iff c).mp hc
      · have hreg : Execute.aluB (facing d (c + 1)) Execute.reset = c + 1 :=
          if_pos (aluSource_immediateWords hm rb ra c priv 0 0 decodeReset)
        rw [hreg] at hB
        bv_omega
  · intro hwhen
    refine ⟨_, hasm, rfl, fun next pc dr i er hdr hi => ?_⟩
    have himreg := imreg_immediateWords hty rb ra c priv next pc hdr
    have hkept := executed_immediate_iff hty rb ra c priv next pc hdr
    have hexec : (Line.immediate m rb ra c).executes priv = some (executed (Execute.drq i)) := by
      rw [hi]
      apply hkept.mpr
      obtain ⟨-, hfits⟩ | ⟨rfl, -⟩ := hwhen
      · exact .inl hfits
      · exact .inr rfl
    refine ⟨hexec, ?_⟩
    have hform : (executed (Execute.drq i)).immediate = true := by
      rw [executes_immediate hty] at hexec
      rw [← Option.some.inj hexec]
      obtain ⟨htakes, -⟩ | ⟨rfl, -⟩ := hwhen
      · exact withImmediate_immediate htakes ..
      · rfl
    rw [aluB_of_immediate hform, hi, himreg]
    split
    next => rfl
    next hbits =>
      obtain ⟨-, hfits⟩ | ⟨-, hfits⟩ := hwhen
      · exact absurd ((xtcCountBits_le_iff c).mpr hfits) hbits
      · exact (signExtend24_iff c).mpr hfits

end Reaches

theorem immediate_reaches_minus_one :
    ∃ frag, (Line.immediate .sub 2 1 (-1)).mdAssemble = .ok frag ∧ frag.fixup = none ∧
      (Line.immediate .sub 2 1 (-1)).ReachesAlu true (-1) frag.words :=
  (immediate_reaches_iff (m := .sub) rfl rfl 2 1 (-1) true).mpr (.inl ⟨rfl, by decide, by decide⟩)

/-- `add` with 1000: the prefix carries the constant, and the sum is that of the registers. -/
theorem add_thousand_lost :
    (Line.immediate .add 2 1 1000).mdAssemble = .ok ⟨[0x83e8, 0x6000, 0x0021], none⟩ ∧
      ∃ i, Execute.drq i = decodeSeq true 0 0 decodeReset [0x83e8, 0x6000, 0x0021] ∧
        Execute.aluB i Execute.reset ≠ 1000 :=
  ⟨by rfl, facing (decodeSeq true 0 0 decodeReset [0x83e8, 0x6000, 0x0021]) 7, rfl, by decide⟩

end Xtc.Tools
