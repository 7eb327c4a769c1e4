import Xtc.Tools.Disassemble

/-!
# Found — the fields `print_insn_xtc` reads and the entry it finds

`readInsn` bit by bit, the table search against the decoder's classes, and the immediate the
decoder derives from the same halfwords.
-/

namespace Xtc.Tools

open Xtc.Linker

/-! ## Fields of the instruction -/

section Fields

variable (hi lo : Opcode)

theorem readInsn_bit_low {i : Nat} (h : i < 16) :
    (readInsn hi lo).getLsbD i = hi.getLsbD i := by
  unfold readInsn
  split
  · simp only [BitVec.getLsbD_or, BitVec.getLsbD_setWidth, BitVec.getLsbD_signExtend,
      BitVec.getLsbD_append]
    simp [h, show i < 64 by omega, show i < 32 by omega]
  · simp [show i < 64 by omega]

theorem readInsn_bit_high (hext : hi.getLsbD 15 = true) {i : Nat} (h : i < 16) :
    (readInsn hi lo).getLsbD (16 + i) = lo.getLsbD i := by
  unfold readInsn
  rw [if_pos hext]
  simp only [BitVec.getLsbD_or, BitVec.getLsbD_setWidth, BitVec.getLsbD_signExtend,
    BitVec.getLsbD_append]
  rw [BitVec.getLsbD_of_ge hi _ (by omega)]
  simp [show 16 + i < 64 by omega, show 16 + i < 32 by omega]

theorem readInsn_bit_top (hext : hi.getLsbD 15 = true) {i : Nat} (h : 31 ≤ i) (h' : i < 64) :
    (readInsn hi lo).getLsbD i = lo.getLsbD 15 := by
  unfold readInsn
  rw [if_pos hext, BitVec.getLsbD_or, BitVec.getLsbD_setWidth, BitVec.getLsbD_of_ge hi _ (by omega),
    BitVec.getLsbD_signExtend, BitVec.msb_eq_getLsbD_last, BitVec.getLsbD_append]
  have hmsb : (lo ++ 0#16).getLsbD 31 = lo.getLsbD 15 := by
    rw [BitVec.getLsbD_append]
    simp
  by_cases h31 : i = 31
  · subst h31
    simp
  · simpa [h', show ¬ i < 32 by omega] using hmsb

theorem readInsn_low (low n : Nat) (h : low + n ≤ 16) :
    (readInsn hi lo).extractLsb' low n = hi.extractLsb' low n := by
  apply BitVec.eq_of_getLsbD_eq
  intro i hi'
  rw [BitVec.getLsbD_extractLsb', BitVec.getLsbD_extractLsb', readInsn_bit_low _ _ (by omega)]

theorem readInsn_high (hext : hi.getLsbD 15 = true) (low n : Nat) (h : low + n ≤ 16) :
    (readInsn hi lo).extractLsb' (16 + low) n = lo.extractLsb' low n := by
  apply BitVec.eq_of_getLsbD_eq
  intro i hi'
  rw [BitVec.getLsbD_extractLsb', BitVec.getLsbD_extractLsb', Nat.add_assoc,
    readInsn_bit_high _ _ hext (by omega)]

theorem getField_eq (inst : BitVec 64) (low n : Nat) (h : n ≤ 64) {mask : BitVec 64}
    (hmask : mask = (BitVec.allOnes n).setWidth 64 <<< low) :
    getField inst mask low = (inst.extractLsb' low n).toNat := by
  rw [getField, hmask, Bits.mask_shift, BitVec.toNat_setWidth]
  have := (inst.extractLsb' low n).isLt
  have hpow : 2 ^ n ≤ 2 ^ 64 := Nat.pow_le_pow_right (by omega) h
  exact Nat.mod_eq_of_lt (by omega)

theorem getField_r1 : getField (readInsn hi lo) 0x0F 0 = (hi.extractLsb 3 0).toNat := by
  refine (getField_eq (readInsn hi lo) 0 4 (by omega) (by decide)).trans ?_
  rw [readInsn_low _ _ _ _ (by omega)]
  rfl

theorem getField_r2 : getField (readInsn hi lo) 0xF0 4 = (hi.extractLsb 7 4).toNat := by
  refine (getField_eq (readInsn hi lo) 4 4 (by omega) (by decide)).trans ?_
  rw [readInsn_low _ _ _ _ (by omega)]
  rfl

theorem getField_spr : getField (readInsn hi lo) 0x70 4 = (hi.extractLsb 6 4).toNat := by
  refine (getField_eq (readInsn hi lo) 4 3 (by omega) (by decide)).trans ?_
  rw [readInsn_low _ _ _ _ (by omega)]
  rfl

theorem getField_dreg (hext : hi.getLsbD 15 = true) :
    getField (readInsn hi lo) 0xF0000 16 = (lo.extractLsb 3 0).toNat := by
  refine (getField_eq (readInsn hi lo) 16 4 (by omega) (by decide)).trans ?_
  rw [readInsn_high _ _ hext 0 4 (by omega)]
  rfl

theorem getField_immval (hext : hi.getLsbD 15 = true) :
    getField (readInsn hi lo) 0xFF0000 16 = (lo.extractLsb 7 0).toNat := by
  refine (getField_eq (readInsn hi lo) 16 8 (by omega) (by decide)).trans ?_
  rw [readInsn_high _ _ hext 0 8 (by omega)]
  rfl

/-- A field of less than fifteen bits keeps its value as a `short`. -/
theorem getFieldShort_eq (inst : BitVec 64) (low n : Nat) (h : n ≤ 15) {mask : BitVec 64}
    (hmask : mask = (BitVec.allOnes n).setWidth 64 <<< low) :
    getFieldShort inst mask low = ((inst.extractLsb' low n).toNat : Int) := by
  have hlt := (inst.extractLsb' low n).isLt
  have hpow : 2 ^ n ≤ 2 ^ 15 := Nat.pow_le_pow_right (by omega) h
  rw [getFieldShort, hmask, Bits.mask_shift, BitVec.toInt_eq_toNat_of_lt, BitVec.toNat_setWidth,
    BitVec.toNat_setWidth, Nat.mod_eq_of_lt (a := (inst.extractLsb' low n).toNat) (by omega),
    Nat.mod_eq_of_lt (by omega)]
  rw [BitVec.toNat_setWidth, BitVec.toNat_setWidth,
    Nat.mod_eq_of_lt (a := (inst.extractLsb' low n).toNat) (by omega), Nat.mod_eq_of_lt (by omega)]
  omega

theorem getFieldShort_imm8 :
    getFieldShort (readInsn hi lo) 0xFF0 4 = ((hi.extractLsb 11 4).toNat : Int) := by
  refine (getFieldShort_eq (readInsn hi lo) 4 8 (by omega) (by decide)).trans ?_
  rw [readInsn_low _ _ _ _ (by omega)]
  rfl

theorem getFieldShort_imm12 :
    getFieldShort (readInsn hi lo) 0xFFF 0 = ((hi.extractLsb 11 0).toNat : Int) := by
  refine (getFieldShort_eq (readInsn hi lo) 0 12 (by omega) (by decide)).trans ?_
  rw [readInsn_low _ _ _ _ (by omega)]
  rfl

theorem readInsn_extended : readInsn hi lo &&& 0x8000 ≠ 0 ↔ hi.getLsbD 15 = true := by
  have hbit : (readInsn hi lo &&& 0x8000).getLsbD 15 = hi.getLsbD 15 := by
    rw [BitVec.getLsbD_and, readInsn_bit_low _ _ (by omega)]
    simp
  constructor
  · intro h
    by_contra hne
    apply h
    apply BitVec.eq_of_getLsbD_eq
    intro i hi'
    by_cases h15 : i = 15
    · subst h15
      rw [hbit]
      simpa using hne
    · have hmask : (0x8000 : BitVec 64).getLsbD i = false := by
        revert h15 hi'
        revert i
        decide
      rw [BitVec.getLsbD_and, hmask, Bool.and_false]
      simp
  · intro hext hzero
    rw [hzero, hext] at hbit
    simp at hbit

theorem readInsn_cond (hext : hi.getLsbD 15 = true) :
    (readInsn hi lo >>> 24).setWidth 4 = lo.extractLsb 11 8 := by
  apply BitVec.eq_of_getLsbD_eq
  intro i hi'
  rw [BitVec.getLsbD_setWidth, BitVec.getLsbD_ushiftRight, show 24 + i = 16 + (8 + i) by omega,
    readInsn_bit_high _ _ hext (by omega), BitVec.getLsbD_extractLsb]

/-- The letter: `inst >> 29` is beyond every case when the top bit of the extension is set. -/
theorem printedFlags_eq (hext : hi.getLsbD 15 = true) :
    printedFlags (readInsn hi lo) =
      if lo.getLsbD 15 then .none
      else if lo.extractLsb 14 13 = 0b01#2 then .dreg
      else if lo.extractLsb 14 13 = 0b10#2 then .immed
      else .none := by
  have hbits : ∀ i, i < 3 → (readInsn hi lo >>> 29).getLsbD i = lo.getLsbD (13 + i) := by
    intro i hi'
    rw [BitVec.getLsbD_ushiftRight, show 29 + i = 16 + (13 + i) by omega,
      readInsn_bit_high _ _ hext (by omega)]
  unfold printedFlags
  by_cases htop : lo.getLsbD 15 = true
  · have hge : (readInsn hi lo >>> 29).toNat ≥ 2 ^ 2 := by
      apply Nat.ge_two_pow_of_testBit
      rw [BitVec.testBit_toNat, hbits 2 (by omega)]
      exact htop
    rw [if_pos htop]
    split <;> first | omega | rfl
  · rw [if_neg htop]
    have hfield : readInsn hi lo >>> 29 = (lo.extractLsb 14 13).setWidth 64 := by
      apply BitVec.eq_of_getLsbD_eq
      intro i hi'
      rw [BitVec.getLsbD_setWidth, BitVec.getLsbD_extractLsb]
      by_cases h2 : i < 2
      · rw [hbits i (by omega)]
        simp [hi', show i ≤ 1 by omega]
      · rw [BitVec.getLsbD_ushiftRight]
        by_cases h64 : 29 + i < 64
        · rw [readInsn_bit_top _ _ hext (by omega) h64]
          simp [Bool.eq_false_of_not_eq_true htop, show ¬ i ≤ 1 by omega,
            -BitVec.getLsbD_eq_getElem]
        · rw [BitVec.getLsbD_of_ge _ _ (by omega)]
          simp [show ¬ i ≤ 1 by omega]
    rw [hfield]
    generalize lo.extractLsb 14 13 = t
    revert t
    decide

end Fields

/-! ## The table search -/

section Search

variable {hi lo : Opcode} {m : Mnemonic}

/-- The prefix is found first, whenever the decoder takes the instruction for one. -/
theorem fits_imm_iff :
    Mnemonic.imm.fits (readInsn hi lo) = true ↔
      hi.getLsbD 15 = true ∧ lo.extractLsb 14 13 = 0b11#2 := by
  have htop : lo.extractLsb 14 13 = 0b11#2 ↔ lo.getLsbD 13 = true ∧ lo.getLsbD 14 = true := by
    constructor
    · intro h
      have h0 := congrArg (BitVec.getLsbD · 0) h
      have h1 := congrArg (BitVec.getLsbD · 1) h
      simp only [BitVec.getLsbD_extractLsb] at h0 h1
      exact ⟨by simpa using h0, by simpa using h1⟩
    · rintro ⟨h0, h1⟩
      apply BitVec.eq_of_getLsbD_eq
      intro i hi'
      rw [BitVec.getLsbD_extractLsb]
      interval_cases i
      · simpa using h0
      · simpa using h1
  have hbit : ∀ i, i < 64 → (0x60008000 : BitVec 64).getLsbD i =
      decide (i = 15 ∨ i = 29 ∨ i = 30) := by
    decide
  rw [htop]
  constructor
  · intro h
    have h' := beq_iff_eq.mp h
    have hset : ∀ i, i < 64 → (0x60008000 : BitVec 64).getLsbD i = true →
        (readInsn hi lo).getLsbD i = true := by
      intro i _ hmask
      have hx := congrArg (BitVec.getLsbD · i) h'
      simp only [BitVec.getLsbD_and] at hx
      change (0x60008000 : BitVec 64).getLsbD i =
        ((readInsn hi lo).getLsbD i && (0x60008000 : BitVec 64).getLsbD i) at hx
      rw [hmask, Bool.and_true] at hx
      exact hx.symm
    have hext : hi.getLsbD 15 = true := by
      have := hset 15 (by omega) (by decide)
      rwa [readInsn_bit_low _ _ (by omega)] at this
    refine ⟨hext, ?_, ?_⟩
    · have := hset 29 (by omega) (by decide)
      rwa [readInsn_bit_high hi lo hext (i := 13) (by omega)] at this
    · have := hset 30 (by omega) (by decide)
      rwa [readInsn_bit_high hi lo hext (i := 14) (by omega)] at this
  · rintro ⟨hext, h13, h14⟩
    apply beq_iff_eq.mpr
    apply BitVec.eq_of_getLsbD_eq
    intro i hi'
    change (0x60008000 : BitVec 64).getLsbD i =
      (readInsn hi lo &&& (0x60008000 : BitVec 64)).getLsbD i
    rw [BitVec.getLsbD_and, hbit i hi']
    by_cases hmem : i = 15 ∨ i = 29 ∨ i = 30
    · have hset : (readInsn hi lo).getLsbD i = true := by
        obtain rfl | rfl | rfl := hmem
        · rw [readInsn_bit_low _ _ (by omega)]
          exact hext
        · rw [readInsn_bit_high hi lo hext (i := 13) (by omega)]
          exact h13
        · rw [readInsn_bit_high hi lo hext (i := 14) (by omega)]
          exact h14
      simp [hset]
    · simp [hmem]

theorem covers_of_fits (hm : m ≠ .imm) (h : m.fits (readInsn hi lo) = true) :
    m.Covers (hi.extractLsb 14 8) := by
  refine ⟨hm, ?_⟩
  have h' := beq_iff_eq.mp h
  have hx := congrArg (fun x => x.extractLsb' 8 7) h'
  simp only [BitVec.extractLsb'_and, readInsn_low hi lo 8 7 (by omega)] at hx
  have hkey : (m.entry.bitSequence.setWidth 64).extractLsb' 8 7 = m.key := by
    cases m <;> rfl
  have hmask : (m.entry.opcodeMask.setWidth 64).extractLsb' 8 7 = m.keyMask := by
    cases m <;> rfl
  rw [hkey, hmask] at hx
  exact hx.symm

theorem fits_of_find (h : findOpcode (readInsn hi lo) = some m) :
    m.fits (readInsn hi lo) = true := List.find?_some h

theorem not_prefix_of_find (h : findOpcode (readInsn hi lo) = some m) (hm : m ≠ .imm) :
    ¬(hi.getLsbD 15 = true ∧ lo.extractLsb 14 13 = 0b11#2) := by
  rw [← fits_imm_iff]
  intro himm
  rw [findOpcode, opcodes, List.find?_cons_of_pos himm] at h
  exact hm (Option.some_inj.mp h).symm

/-- `sextb` comes before `nop` and fits whatever `nop` fits. -/
theorem ne_nop_of_find (h : findOpcode (readInsn hi lo) = some m) : m ≠ .nop := by
  rintro rfl
  have hnop : (0x3800 : BitVec 64) = readInsn hi lo &&& 0x7FFF := beq_iff_eq.mp (fits_of_find h)
  have hsextb : Mnemonic.sextb.fits (readInsn hi lo) = true := by
    apply beq_iff_eq.mpr
    calc (0x3800 : BitVec 64) = 0x3800 &&& 0x7F00 := by decide
      _ = readInsn hi lo &&& 0x7FFF &&& 0x7F00 := by rw [hnop]
      _ = readInsn hi lo &&& 0x7F00 := by
        rw [BitVec.and_assoc]
        rfl
  have hsplit : opcodes = opcodes.take 37 ++ .sextb :: opcodes.drop 38 := by decide
  rw [findOpcode, hsplit, List.find?_append, List.find?_cons_of_pos hsextb] at h
  cases hfirst : (opcodes.take 37).find? (Mnemonic.fits (readInsn hi lo)) with
  | none => simp [hfirst] at h
  | some x =>
    rw [hfirst] at h
    have hmem := List.mem_of_find?_eq_some hfirst
    obtain rfl : x = .nop := by simpa using h
    exact absurd hmem (by decide)

end Search

/-! ## The immediate the decoder derives -/

def HasNumber (hi lo : Opcode) : Prop := hi.getLsbD 15 = true ∧ lo.extractLsb 14 13 = 0b10#2

instance (hi lo : Opcode) : Decidable (HasNumber hi lo) := inferInstanceAs (Decidable (_ ∧ _))

section Immediate

variable (priv : Bool) (pc : Word) {hi lo : Opcode} {dr : DecodeRegs}

theorem decodeImreg_loadNone (d : Opdec) :
    decodeImreg (opdecImmediate lo .loadNone d) false 0 =
      if d.extended = true ∧ lo.extractLsb 14 13 = 0b10#2 then d.imm8h.signExtend 32 else 0 := by
  by_cases hext : d.extended = true <;> by_cases hlo : lo.extractLsb 14 13 = 0b10#2 <;>
    simp [opdecImmediate, decodeImreg, hext, hlo]

theorem decodeImreg_load8 (d : Opdec) :
    decodeImreg (opdecImmediate lo .load8 d) false 0 =
      if d.extended = true ∧ lo.extractLsb 14 13 = 0b10#2 then (d.imm8h ++ d.imm8l).signExtend 32
      else d.imm8l.signExtend 32 := by
  by_cases hext : d.extended = true <;> by_cases hlo : lo.extractLsb 14 13 = 0b10#2 <;>
    simp [opdecImmediate, decodeImreg, hext, hlo]

theorem decodeImreg_load24 (d : Opdec) :
    decodeImreg (opdecImmediate lo .load24 d) false 0 = d.imm24.signExtend 32 := by
  by_cases hext : d.extended = true <;> simp [opdecImmediate, decodeImreg, hext]

theorem decodeImreg_congr {d e : Opdec} (hl : d.loadimm = e.loadimm) (h8l : d.imm8l = e.imm8l)
    (h8h : d.imm8h = e.imm8h) (h24 : d.imm24 = e.imm24) (r : Word) :
    decodeImreg d false r = decodeImreg e false 0 := by
  unfold decodeImreg
  rw [hl, h8l, h8h, h24]
  cases e.loadimm <;> simp

theorem decodeInsn_imreg_eq (hdr : dr.imflag = false) :
    (decodeInsn priv pc hi lo dr).imreg =
      let e := opdecCase (opdecOp hi lo) priv (opdecAluOp hi).2 (opdecDefaults hi lo priv)
      decodeImreg (opdecImmediate lo e.2 e.1) false 0 := by
  show decodeImreg (opdec hi lo priv) dr.imflag dr.imreg = _
  rw [hdr, opdec]
  generalize opdecCase (opdecOp hi lo) priv (opdecAluOp hi).2 (opdecDefaults hi lo priv) = e
  obtain ⟨hload, h8l, h8h, h24⟩ := opdecExtension_immediate lo (opdecOp hi lo) priv
    (opdecImmediate lo e.2 e.1)
  exact decodeImreg_congr hload h8l h8h h24 _

theorem decodeInsn_imreg_short (hclass : (hi.extractLsb 14 12).toNat < 4)
    (hnot : ¬(hi.getLsbD 15 = true ∧ lo.extractLsb 14 13 = 0b11#2)) (hdr : dr.imflag = false) :
    (decodeInsn priv pc hi lo dr).imreg =
      if HasNumber hi lo then (lo.extractLsb 7 0).signExtend 32 else 0 := by
  have hop : opdecOp hi lo = opdecClass hi := if_neg hnot
  have hkept := opdecCase_sameWords (opdecClass hi) priv (opdecAluOp hi).2
    (opdecDefaults hi lo priv)
  rw [decodeInsn_imreg_eq priv pc hdr, hop]
  simp only [opdecCase_loadNone hclass]
  rw [decodeImreg_loadNone, hkept.extended, hkept.imm8h]
  rfl

theorem decodeInsn_imreg_prefixed (hclass : (hi.extractLsb 14 12).toNat < 4)
    (hext : hi.getLsbD 15 = false) (hdr : dr.imflag = true) :
    (decodeInsn priv pc hi lo dr).imreg = dr.imreg := by
  have hop : opdecOp hi lo = opdecClass hi := if_neg (by rw [hext]; simp)
  have hkept := opdecCase_sameWords (opdecClass hi) priv (opdecAluOp hi).2
    (opdecDefaults hi lo priv)
  have hshort : (opdecCase (opdecClass hi) priv (opdecAluOp hi).2
      (opdecDefaults hi lo priv)).1.extended = false := hkept.extended.trans hext
  have hload : (opdec hi lo priv).loadimm = .loadNone := by
    rw [opdec, (opdecExtension_immediate ..).1, hop, opdecCase_loadNone hclass]
    simp [opdecImmediate, hshort]
  show decodeImreg (opdec hi lo priv) dr.imflag dr.imreg = _
  unfold decodeImreg
  rw [hload, hdr]
  rfl

theorem decodeInsn_imreg_imm8 {op : DecodedOpcode}
    (hclass : op = .br ∨ op = .addi ∨ op = .cmpi ∨ op = .limr) (hop : opdecOp hi lo = op)
    (hdr : dr.imflag = false) :
    (decodeInsn priv pc hi lo dr).imreg =
      if HasNumber hi lo then (lo.extractLsb 7 0 ++ hi.extractLsb 11 4).signExtend 32
      else (hi.extractLsb 11 4).signExtend 32 := by
  have hkept := opdecCase_sameWords op priv (opdecAluOp hi).2 (opdecDefaults hi lo priv)
  have hload : ∀ d, (opdecCase op priv (opdecAluOp hi).2 d).2 = .load8 := by
    intro d
    obtain rfl | rfl | rfl | rfl := hclass <;> rfl
  rw [decodeInsn_imreg_eq priv pc hdr, hop]
  simp only [hload]
  rw [decodeImreg_load8, hkept.extended, hkept.imm8h, hkept.imm8l]
  rfl

theorem decodeInsn_imreg_prefix
    (him : hi.getLsbD 15 = true ∧ lo.extractLsb 14 13 = 0b11#2) (hdr : dr.imflag = false) :
    (decodeInsn priv pc hi lo dr).imreg =
      (BitVec.ofBool (lo.getLsbD 12) ++ lo.extractLsb 7 0 ++ hi.extractLsb 14 0).signExtend 32 := by
  have hop : opdecOp hi lo = .im := if_pos him
  rw [decodeInsn_imreg_eq priv pc hdr, hop]
  exact decodeImreg_load24 _

end Immediate

theorem getcc_condition (val : BitVec 4) :
    ((getcc val).map CondCode.condition).getD .unconditional = opdecCondition val := by
  revert val
  decide

end Xtc.Tools
