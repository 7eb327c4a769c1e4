import Xtc.Core.Opdec

/-!
# Decode — the decode stage `decode.vhd`

`decodeLoad` is the branch that takes an instruction, `decodeFlush` the one that drops it, and
`decodeNext` the clocked process.
-/

namespace Xtc

/-- The immediate register after an instruction, from the one before it. -/
def decodeImreg (dec : Opdec) (imflag : Bool) (imreg : Word) : Word :=
  match dec.loadimm with
  | .load8 =>
      if imflag then imreg.extractLsb 23 0 ++ dec.imm8l
      else dec.imm8l.signExtend 32
  | .load16 =>
      if imflag then imreg.extractLsb 15 0 ++ (dec.imm8h ++ dec.imm8l)
      else (dec.imm8h ++ dec.imm8l).signExtend 32
  | .load24 => dec.imm24.signExtend 32
  | .load0 | .loadNone => if imflag then imreg else 0

/-- `if fui.valid='1' and freeze='0'`: the decoded instruction enters the decode registers.
The condition of an immediate prefix, and the address a trap returns to, stay with it. -/
def decodeLoad (dec : Opdec) (opcodeHigh opcodeLow : Opcode) (pc npc : Word) (dr : DecodeRegs) :
    DecodeRegs :=
  { dr with
    rd1 := dec.rd1
    rd2 := dec.rd2
    sra1 := dec.sreg1
    sra2 := dec.sreg2
    sprwe := dec.modifySpr
    pc := pc
    npc := npc
    fpc := npc + 2
    tpc := if dr.imflag then dr.tpc else pc
    imreg := decodeImreg dec dr.imflag dr.imreg
    imflag := dec.imflag
    enableAlu := dec.enableAlu
    ismult := dec.ismult
    aluOp := dec.aluOp
    aluSource := dec.aluSource
    wbIsDataAddress := false
    copEn := dec.copEn
    copWr := dec.copWr
    macc := dec.macc
    sr := dec.sr
    memoryAccess := dec.memoryAccess
    memoryWrite := dec.memoryWrite
    modifyFlags := dec.modifyFlags
    blocks := dec.blocks
    dreg := dec.dreg
    regSource := dec.regSource
    regwe := dec.modifyGpr
    priv := dec.priv
    jump := dec.jump
    exceptReturn := dec.exceptReturn
    useCarry := dec.useCarry
    conditionClause := if dr.imflag then dr.conditionClause else dec.condition
    opcode := opcodeHigh
    opcodeLow := opcodeLow
    dual := dec.extended
    decoded := dec.op
    isJump := dec.isJump }

def decodeFlush (dw : DecodeRegs) : DecodeRegs :=
  { dw with
    valid := false
    imflag := false
    regwe := false
    rd1 := false
    rd2 := false
    ismult := false
    blocks := false
    copEn := false
    copWr := false
    priv := false
    sprwe := false
    isJump := false
    memoryAccess := false
    memoryWrite := false
    enableAlu := false
    useCarry := false
    modifyFlags := false }

def opcodeHigh (fui : FetchOutput) : Opcode :=
  if fui.inverted then fui.opcode.extractLsb 15 0 else fui.opcode.extractLsb 31 16

def opcodeLow (fui : FetchOutput) : Opcode :=
  if fui.inverted then fui.opcode.extractLsb 31 16 else fui.opcode.extractLsb 15 0

def decodeDec (fui : FetchOutput) : Opdec := opdec (opcodeHigh fui) (opcodeLow fui) fui.r.priv

def decodeNext (fui : FetchOutput) (freeze flush : Bool) (dr : DecodeRegs) : DecodeRegs :=
  let dec := decodeDec fui
  let dw := { dr with copId := dec.copId, copReg := dec.copReg }
  let dw := if freeze then dw else { dw with valid := fui.valid }
  let dw := if fui.valid && !freeze then
    decodeLoad dec (opcodeHigh fui) (opcodeLow fui) fui.r.pc fui.npc dw else dw
  if flush then decodeFlush dw else dw

/-- Decode registers out of reset; the fields reset does not write hold the first value of their
type. -/
def decodeReset : DecodeRegs :=
  decodeFlush
    { decoded := .nop, valid := false, rd1 := false, rd2 := false, sra1 := 0, sra2 := 0,
      opcode := 0, opcodeLow := 0, dual := false, regSource := .alu, regwe := false, dreg := 0,
      sprwe := false, blocks := false, modifyFlags := false, aluOp := .add, useCarry := false,
      enableAlu := false, memoryWrite := false, memoryAccess := false, macc := .word,
      wbIsDataAddress := false, npc := 0, fpc := 0, pc := 0, tpc := 0,
      conditionClause := .unconditional, aluSource := .reg, ismult := false, isJump := false,
      jump := .none, exceptReturn := false, imreg := 0, imflag := false, sr := 0, copEn := false,
      copWr := false, copId := 0, copReg := 0, priv := false }

section Fields

variable {fui : FetchOutput} {freeze flush : Bool} {dr : DecodeRegs}

theorem decodeNext_valid :
    (decodeNext fui freeze flush dr).valid =
      if flush then false else if freeze then dr.valid else fui.valid := by
  unfold decodeNext decodeFlush decodeLoad
  cases flush <;> cases freeze <;> cases fui.valid <;> simp

theorem decodeNext_pc :
    (decodeNext fui freeze flush dr).pc =
      if fui.valid && !freeze then fui.r.pc else dr.pc := by
  unfold decodeNext decodeFlush decodeLoad
  cases flush <;> cases freeze <;> cases fui.valid <;> simp

end Fields

/-! ## What the decode registers keep of it -/

structure DecodeRegs.WellFormed (d : DecodeRegs) : Prop where
  blocks : d.blocks = (d.memoryAccess && !d.memoryWrite)
  memory : d.memoryAccess = true → d.regwe = false ∧ d.copEn = false ∧ d.sprwe = false
  mult : d.ismult = true → d.regwe = true ∧ d.regSource = .alu ∧ d.memoryAccess = false ∧
    d.modifyFlags = false ∧ d.sprwe = false ∧ d.isJump = false ∧ d.copEn = false

theorem decodeFlush_wellFormed (d : DecodeRegs) : (decodeFlush d).WellFormed := by
  constructor <;> simp [decodeFlush]

theorem decodeNext_wellFormed {fui : FetchOutput} {freeze flush : Bool} {dr : DecodeRegs}
    (h : dr.WellFormed) : (decodeNext fui freeze flush dr).WellFormed := by
  have hdec : (decodeDec fui).WellFormed := opdec_wellFormed _ _ _
  unfold decodeNext
  cases flush with
  | true => exact decodeFlush_wellFormed _
  | false =>
    simp only [Bool.false_eq_true, if_false]
    split
    · exact ⟨hdec.blocks, hdec.memory, hdec.mult⟩
    · split <;> exact ⟨h.blocks, h.memory, h.mult⟩

def DecodeRegs.InBank (b : Bool) (d : DecodeRegs) : Prop :=
  d.decoded.crossesBank = false → d.sra1.getLsbD 4 = b ∧ d.sra2.getLsbD 4 = b ∧ d.dreg.getLsbD 4 = b

/-- The bank is the one the instruction was fetched for. -/
theorem decodeNext_inBank {fui : FetchOutput} {freeze flush : Bool} {dr : DecodeRegs}
    (h : dr.valid = true → dr.InBank fui.r.priv)
    (hv : (decodeNext fui freeze flush dr).valid = true) :
    (decodeNext fui freeze flush dr).InBank fui.r.priv := by
  rw [decodeNext_valid] at hv
  cases flush with
  | true => cases hv
  | false =>
    cases freeze with
    | true =>
      intro hcross
      simp only [decodeNext, Bool.not_true, Bool.and_false, Bool.false_eq_true, if_false,
        if_true] at hcross ⊢
      exact h hv hcross
    | false =>
      have hv' : fui.valid = true := hv
      intro hcross
      simp only [decodeNext, hv', Bool.not_false, Bool.and_true, Bool.false_eq_true, if_false,
        if_true, decodeLoad] at hcross ⊢
      have hbank := opdec_banked (opcodeHigh fui) (opcodeLow fui) fui.r.priv hcross
      exact ⟨hbank.sreg1, hbank.sreg2, hbank.dreg⟩

end Xtc
