import Xtc.Tools.Opcodes

/-!
# Insn — the decoder over the opcode table

Closed forms of `opdec` on an instruction word `ext ++ key ++ rb ++ ra`: what each mnemonic of the
table decodes to, and what an extension word changes.
-/

namespace Xtc.Tools

open Xtc.Linker

/-- An instruction word: the extension bit, the bits the table looks at, and two registers. -/
def insnWord (ext : BitVec 1) (key : BitVec 7) (rb ra : BitVec 4) : Opcode :=
  ext ++ key ++ rb ++ ra

section Word

variable (ext : BitVec 1) (key : BitVec 7) (rb ra : BitVec 4)

theorem insnWord_ra : (insnWord ext key rb ra).extractLsb 3 0 = ra := Bits.extractLsb'_low _ ra

theorem insnWord_rb : (insnWord ext key rb ra).extractLsb 7 4 = rb :=
  Bits.extractLsb'_field _ rb ra

theorem insnWord_ext : (insnWord ext key rb ra).getLsbD 15 = ext.getLsbD 0 := by
  simp only [insnWord, BitVec.getLsbD_append]
  simp

theorem insnWord_bit (i : Nat) (h : i < 7) :
    (insnWord ext key rb ra).getLsbD (8 + i) = key.getLsbD i := by
  simp only [insnWord, BitVec.getLsbD_append]
  interval_cases i <;> simp

theorem insnWord_key (lo n : Nat) (h : lo + n ≤ 7) :
    (insnWord ext key rb ra).extractLsb' (8 + lo) n = key.extractLsb' lo n := by
  apply BitVec.eq_of_getLsbD_eq
  intro i hi
  rw [BitVec.getLsbD_extractLsb', BitVec.getLsbD_extractLsb', Nat.add_assoc,
    insnWord_bit _ _ _ _ _ (by omega)]

theorem insnWord_sr : (insnWord ext key rb ra).extractLsb 6 4 = rb.setWidth 3 := by
  apply BitVec.eq_of_getLsbD_eq
  intro i hi
  simp only [insnWord, BitVec.getLsbD_extractLsb, BitVec.getLsbD_append, BitVec.getLsbD_setWidth]
  interval_cases i <;> simp

theorem opdecMtype_insnWord :
    opdecMtype (insnWord ext key rb ra) = opdecMtype (insnWord 0 key 0 0) := by
  unfold opdecMtype
  rw [show (insnWord ext key rb ra).extractLsb 10 8 = (insnWord 0 key 0 0).extractLsb 10 8 from
    (insnWord_key ext key rb ra 0 3 (by omega)).trans (insnWord_key 0 key 0 0 0 3 (by omega)).symm]

theorem opdecAluOp_insnWord :
    opdecAluOp (insnWord ext key rb ra) = opdecAluOp (insnWord 0 key 0 0) := by
  unfold opdecAluOp
  rw [show (insnWord ext key rb ra).extractLsb 11 8 = (insnWord 0 key 0 0).extractLsb 11 8 from
    (insnWord_key ext key rb ra 0 4 (by omega)).trans (insnWord_key 0 key 0 0 0 4 (by omega)).symm]

theorem opdecClass_insnWord :
    opdecClass (insnWord ext key rb ra) = opdecClass (insnWord 0 key 0 0) := by
  have hclass : (insnWord ext key rb ra).extractLsb 14 12 = (insnWord 0 key 0 0).extractLsb 14 12 :=
    (insnWord_key ext key rb ra 4 3 (by omega)).trans (insnWord_key 0 key 0 0 4 3 (by omega)).symm
  have hsub : (insnWord ext key rb ra).extractLsb 9 8 = (insnWord 0 key 0 0).extractLsb 9 8 :=
    (insnWord_key ext key rb ra 0 2 (by omega)).trans (insnWord_key 0 key 0 0 0 2 (by omega)).symm
  have h11 : (insnWord ext key rb ra).getLsbD 11 = (insnWord 0 key 0 0).getLsbD 11 :=
    (insnWord_bit ext key rb ra 3 (by omega)).trans (insnWord_bit 0 key 0 0 3 (by omega)).symm
  have h10 : (insnWord ext key rb ra).getLsbD 10 = (insnWord 0 key 0 0).getLsbD 10 :=
    (insnWord_bit ext key rb ra 2 (by omega)).trans (insnWord_bit 0 key 0 0 2 (by omega)).symm
  simp only [opdecClass, opdecSingle, hclass, hsub, h11, h10]

theorem insnWord_copId : (insnWord ext key rb ra).extractLsb 9 8 = key.extractLsb 1 0 :=
  insnWord_key ext key rb ra 0 2 (by omega)

end Word

/-! ## The decoder's control fields -/

/-- The decoder's output, read as `executed` reads the decode registers. -/
def decExecuted (d : Opdec) (c : Condition) : Executed where
  op := d.op
  alu := if d.op = .alu then some (d.aluOp, d.useCarry, d.modifyFlags) else none
  immediate := d.op = .alu ∧ d.aluSource = .immed
  memory := if d.memoryAccess then some d.macc else none
  left := if d.rd1 then some d.sreg1 else none
  right := if d.rd2 then some d.sreg2 else none
  dest := if d.modifyGpr then some d.dreg else none
  sr := if d.modifySpr ∨ d.modifyGpr ∧ d.regSource = .spr then some d.sr else none
  cop := if d.copEn then some (d.copWr, d.copId, d.copReg) else none
  condition := c

theorem executed_decodeInsn (priv : Bool) (pc : Word) (hi lo : Opcode) (dr : DecodeRegs) :
    executed (decodeInsn priv pc hi lo dr) = decExecuted (opdec hi lo priv)
      (if dr.imflag then dr.conditionClause else (opdec hi lo priv).condition) :=
  rfl

/-- What an extension word adds to a plain instruction with second register `b`. -/
def Executed.extend (priv : Bool) (lo : Opcode) (b : RegAddress) (x : Executed) : Executed :=
  if lo.extractLsb 14 12 = 0b010#3 then x.withDest (regaddress priv (lo.extractLsb 3 0))
  else if lo.extractLsb 14 12 = 0b100#3 then x.withImmediate b
  else x

theorem decExecuted_immediate (lo : Opcode) (sub : LoadImm) (d : Opdec) (c : Condition) :
    decExecuted (opdecImmediate lo sub d) c = decExecuted d c := by
  unfold opdecImmediate
  split
  · split
    · split <;> rfl
    · rfl
    · split <;> rfl
  · rfl

theorem opdecImmediate_frame (lo : Opcode) (sub : LoadImm) (d : Opdec) :
    (opdecImmediate lo sub d).extended = d.extended ∧
    (opdecImmediate lo sub d).opcode = d.opcode ∧ (opdecImmediate lo sub d).rd1 = d.rd1 ∧
    (opdecImmediate lo sub d).condition = d.condition := by
  unfold opdecImmediate
  split
  · split
    · split <;> exact ⟨rfl, rfl, rfl, rfl⟩
    · exact ⟨rfl, rfl, rfl, rfl⟩
    · split <;> exact ⟨rfl, rfl, rfl, rfl⟩
  · exact ⟨rfl, rfl, rfl, rfl⟩

theorem decExecuted_extension (lo : Opcode) (p : Bool) {d : Opdec} (c : Condition)
    (hrd : d.op = .alu → d.rd1 = true) :
    decExecuted (opdecExtension lo d.op p d) c =
      if d.extended then
        (decExecuted d c).extend p lo (regaddress p (d.opcode.extractLsb 7 4))
      else decExecuted d c := by
  unfold opdecExtension
  by_cases hext : d.extended
  · rw [if_pos hext, if_pos hext]
    unfold Executed.extend
    by_cases hd : lo.extractLsb 14 12 = 0b010#3
    · have hni : ¬(d.op = .alu ∧ lo.extractLsb 14 12 = 0b100#3) := by simp [hd]
      simp only [if_pos hd, if_neg hni]
      cases hg : d.modifyGpr <;> simp [decExecuted, Executed.withDest, hg]
    · by_cases hi : lo.extractLsb 14 12 = 0b100#3
      · by_cases hop : d.op = .alu
        · simp only [if_neg hd, if_pos hi, if_pos (And.intro hop hi)]
          simp [decExecuted, Executed.withImmediate, hop, hrd hop]
        · have hni : ¬(d.op = .alu ∧ lo.extractLsb 14 12 = 0b100#3) := fun h => hop h.1
          simp only [if_neg hd, if_pos hi, if_neg hni]
          simp [decExecuted, Executed.withImmediate, hop]
      · have hni : ¬(d.op = .alu ∧ lo.extractLsb 14 12 = 0b100#3) := fun h => hi h.2
        simp only [if_neg hd, if_neg hi, if_neg hni]
        rfl
  · rw [if_neg hext, if_neg hext]

theorem opdecExtension_condition (lo : Opcode) (op : DecodedOpcode) (p : Bool) (d : Opdec) :
    (opdecExtension lo op p d).condition =
      if d.extended then opdecCondition (lo.extractLsb 11 8) else d.condition := by
  unfold opdecExtension
  dsimp only
  split_ifs <;> rfl

theorem opdec_condition (hi lo : Opcode) (p : Bool) :
    (opdec hi lo p).condition =
      if hi.getLsbD 15 then opdecCondition (lo.extractLsb 11 8) else .unconditional := by
  have hkept := opdecCase_sameWords (opdecOp hi lo) p (opdecAluOp hi).2 (opdecDefaults hi lo p)
  rw [opdec, opdecExtension_condition, (opdecImmediate_frame ..).1,
    (opdecImmediate_frame ..).2.2.2, hkept.extended, hkept.condition]
  rfl

/-- The decoder is its `case op is`, changed by the extension word. -/
theorem decExecuted_opdec (hi lo : Opcode) (p : Bool) (c : Condition) :
    decExecuted (opdec hi lo p) c =
      let x := decExecuted
        (opdecCase (opdecOp hi lo) p (opdecAluOp hi).2 (opdecDefaults hi lo p)).1 c
      if hi.getLsbD 15 then x.extend p lo (regaddress p (hi.extractLsb 7 4)) else x := by
  have hkept := opdecCase_sameWords (opdecOp hi lo) p (opdecAluOp hi).2 (opdecDefaults hi lo p)
  have hop := opdecCase_op (opdecOp hi lo) hi lo p
  set e := opdecCase (opdecOp hi lo) p (opdecAluOp hi).2 (opdecDefaults hi lo p) with he
  have hd : (opdecImmediate lo e.2 e.1).op = opdecOp hi lo := (opdecImmediate_op ..).trans hop
  have hrd : (opdecImmediate lo e.2 e.1).op = .alu → (opdecImmediate lo e.2 e.1).rd1 = true := by
    intro h
    rw [(opdecImmediate_frame ..).2.2.1, he, ← hd, h]
    rfl
  have hx := decExecuted_extension lo p c hrd
  rw [decExecuted_immediate, (opdecImmediate_frame ..).1, (opdecImmediate_frame ..).2.1, hd,
    hkept.extended, hkept.opcode] at hx
  exact hx

/-! ## The table -/

/-- The key bits of an entry, and the mask under which the table compares them. -/
def Mnemonic.key (m : Mnemonic) : BitVec 7 := m.entry.bitSequence.extractLsb 14 8
def Mnemonic.keyMask (m : Mnemonic) : BitVec 7 := m.entry.opcodeMask.extractLsb 14 8

/-- The entry matches an instruction word with these key bits. -/
def Mnemonic.Covers (m : Mnemonic) (key : BitVec 7) : Prop :=
  m ≠ .imm ∧ key &&& m.keyMask = m.key

instance (m : Mnemonic) (key : BitVec 7) : Decidable (m.Covers key) :=
  inferInstanceAs (Decidable (_ ∧ _))

theorem Mnemonic.Covers.eq_key {m : Mnemonic} {key : BitVec 7} (h : m.Covers key)
    (hm : m.keyMask = 0x7F) : key = m.key := by
  rw [← h.2, hm]
  exact (BitVec.and_allOnes (x := key)).symm

theorem Mnemonic.Covers.opdecClass {m : Mnemonic} {key : BitVec 7} (h : m.Covers key) :
    opdecClass (insnWord 0 key 0 0) = (m.executes false 0 0 0).op := by
  cases m
  case imm => exact absurd rfl h.1
  case copr | copw | br | addi | cmpi | limr => revert key; decide +kernel
  all_goals rw [h.eq_key rfl]; rfl

/-- The sixteen ALU codes, four of which stand for another one with the carry, the flags or the
operands changed. -/
def aluExecuted (a : AluOp) (forceFlags : Bool) (x y : RegAddress) : Executed :=
  match a with
  | .cmp => { Executed.ofAlu .sub false true x y with dest := none }
  | .addri => { Executed.ofAlu .add false forceFlags x y with immediate := true, left := some y }
  | .addc => .ofAlu .add true forceFlags x y
  | .subb => .ofAlu .sub true forceFlags x y
  | a => .ofAlu a false forceFlags x y

theorem decExecuted_alu (hi lo : Opcode) (p : Bool) (hop : opdecOp hi lo = .alu) :
    decExecuted (opdecAlu p (opdecAluOp hi).2 (opdecDefaults hi lo p)) .unconditional =
      aluExecuted (opdecAluOp hi).1 (opdecAluOp hi).2
        (regaddress p (hi.extractLsb 3 0)) (regaddress p (hi.extractLsb 7 4)) := by
  have hd : (opdecDefaults hi lo p).aluOp = (opdecAluOp hi).1 := rfl
  have ho : (opdecDefaults hi lo p).op = .alu := hop
  generalize (opdecAluOp hi).1 = a at *
  generalize (opdecAluOp hi).2 = f at *
  cases a <;> cases f <;>
    simp [decExecuted, opdecAlu, hd, ho, aluExecuted, Executed.ofAlu, Executed.plain] <;>
    simp [opdecDefaults]

theorem decExecuted_memory (hi lo : Opcode) (p f : Bool) {op : DecodedOpcode}
    (hmem : op = .st ∨ op = .ld) (hop : opdecOp hi lo = op) :
    decExecuted (opdecCase op p f (opdecDefaults hi lo p)).1 .unconditional =
      .ofMemory op (opdecMtype hi) (regaddress p (hi.extractLsb 3 0))
        (regaddress p (hi.extractLsb 7 4)) := by
  obtain rfl | rfl := hmem <;>
    simp [decExecuted, opdecCase, opdecDefaults, hop, Executed.plain, Executed.ofMemory]

theorem regaddress_bits (p : Bool) (r : BitVec 4) : (regaddress p r).extractLsb 3 0 = r := by
  revert p r
  decide

theorem Mnemonic.Covers.opdecOp {m : Mnemonic} {key : BitVec 7} (h : m.Covers key)
    (ext : BitVec 1) (rb ra : BitVec 4) (lo : Opcode)
    (him : ¬(ext = 1 ∧ lo.extractLsb 14 13 = 0b11#2)) :
    Xtc.opdecOp (insnWord ext key rb ra) lo = (m.executes false 0 0 0).op := by
  rw [Xtc.opdecOp, if_neg, opdecClass_insnWord, h.opdecClass]
  rw [insnWord_ext]
  rintro ⟨hx, hlo⟩
  exact him ⟨by revert hx; clear * -; decide +revert, hlo⟩

theorem Mnemonic.Covers.decExecuted {m : Mnemonic} {key : BitVec 7} (h : m.Covers key)
    (ext : BitVec 1) (rb ra : BitVec 4) (lo : Opcode) (p : Bool)
    (him : ¬(ext = 1 ∧ lo.extractLsb 14 13 = 0b11#2)) :
    Tools.decExecuted (opdecCase (Xtc.opdecOp (insnWord ext key rb ra) lo) p
      (opdecAluOp (insnWord ext key rb ra)).2 (opdecDefaults (insnWord ext key rb ra) lo p)).1
        .unconditional = m.executes p (key.extractLsb 1 0) rb ra := by
  have hop := h.opdecOp ext rb ra lo him
  have hal := opdecAluOp_insnWord ext key rb ra
  have hacc := opdecMtype_insnWord ext key rb ra
  have hsr := insnWord_sr ext key rb ra
  have hcop := insnWord_copId ext key rb ra
  -- from here on the word stands for its fields, and both sides compute
  have hrb := insnWord_rb ext key rb ra
  have hra := insnWord_ra ext key rb ra
  generalize insnWord ext key rb ra = w at *
  subst hrb hra
  cases m
  case imm => exact absurd rfl h.1
  case stw | sts | stb | stwInc | stsInc | stbInc | ldw | lds | ldb | ldwInc | ldsInc | ldbInc =>
    obtain rfl := h.eq_key rfl
    rw [hop]
    refine (decExecuted_memory w lo p _ ?_ hop).trans ?_
    · simp [Mnemonic.executes, Executed.ofMemory, Executed.plain]
    · rw [hacc]
      rfl
  case copr | copw | br | addi | cmpi | limr | jmp | jmpe | sextb | sexts | rspr | wspr | swi |
      nop =>
    rw [hop]
    simp only [opdecDefaults, hop, hsr, hcop]
    rfl
  case rusr | wusr =>
    rw [hop]
    simp [Tools.decExecuted, Mnemonic.executes, opdecCase, opdecDefaults, hop, regaddress_bits,
      Executed.plain]
  all_goals
    obtain rfl := h.eq_key rfl
    rw [hop]
    refine (decExecuted_alu w lo p hop).trans ?_
    rw [hal]
    rfl

/-- An instruction of the table in the decode registers: its mnemonic, changed by its extension
word, under its own condition or the one of the prefix before it. -/
theorem Mnemonic.Covers.executed {m : Mnemonic} {key : BitVec 7} (h : m.Covers key)
    (ext : BitVec 1) (rb ra : BitVec 4) (lo : Opcode) (p : Bool) (pc : Word) (dr : DecodeRegs)
    (him : ¬(ext = 1 ∧ lo.extractLsb 14 13 = 0b11#2)) :
    Tools.executed (decodeInsn p pc (insnWord ext key rb ra) lo dr) =
      let x := m.executes p (key.extractLsb 1 0) rb ra
      (if ext = 1 then x.extend p lo (regaddress p rb) else x).withCondition
        (if dr.imflag then dr.conditionClause
          else if ext = 1 then opdecCondition (lo.extractLsb 11 8) else .unconditional) := by
  have hext : (insnWord ext key rb ra).getLsbD 15 = true ↔ ext = 1 := by
    rw [insnWord_ext]
    clear * -
    decide +revert
  have hplain := h.decExecuted ext rb ra lo p him
  have hdec := decExecuted_opdec (insnWord ext key rb ra) lo p .unconditional
  rw [hplain, insnWord_rb] at hdec
  rw [executed_decodeInsn, opdec_condition]
  simp only [hext] at hdec ⊢
  rw [← hdec]
  rfl

end Xtc.Tools
