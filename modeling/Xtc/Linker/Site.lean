import Xtc.Core.Decode
import Xtc.Linker.Relax
import Xtc.Lib.Bits

/-!
# Site — what an instruction site means to the decoder

The instruction sites the assembler lays down for a relocation, and the meaning the decode stage
gives to a byte sequence: the control fields of the instruction it ends with, each register and
selector only where the instruction uses it.
-/

namespace Xtc.Linker

/-! ## Meaning of a sequence -/

/-- What the stages after decode act on, without the immediate and the program counters. -/
structure Meaning where
  decoded : DecodedOpcode
  source1 : Option RegAddress
  source2 : Option RegAddress
  dest : Option (RegAddress × RegSource)
  aluOp : Option AluOp
  aluSource : AluSource
  useCarry : Bool
  ismult : Bool
  modifyFlags : Bool
  memory : Option (MemoryAccess × Bool)
  blocks : Bool
  sprwe : Bool
  sr : Option (BitVec 3)
  cop : Option (Bool × BitVec 2 × BitVec 4)
  jump : JumpMode
  isJump : Bool
  exceptReturn : Bool
  priv : Bool
  conditionClause : Condition
  deriving DecidableEq

def meaning (dr : DecodeRegs) : Meaning where
  decoded := dr.decoded
  source1 := if dr.rd1 then some dr.sra1 else none
  source2 := if dr.rd2 then some dr.sra2 else none
  dest := if dr.regwe then some (dr.dreg, dr.regSource) else none
  aluOp := if dr.memoryAccess || dr.modifyFlags || (dr.regwe && dr.regSource == .alu) then
    some dr.aluOp else none
  aluSource := dr.aluSource
  useCarry := dr.useCarry
  ismult := dr.ismult
  modifyFlags := dr.modifyFlags
  memory := if dr.memoryAccess then some (dr.macc, dr.memoryWrite) else none
  blocks := dr.blocks
  sprwe := dr.sprwe
  sr := if dr.sprwe || (dr.regwe && dr.regSource == .spr) then some dr.sr else none
  cop := if dr.copEn then some (dr.copWr, dr.copId, dr.copReg) else none
  jump := dr.jump
  isJump := dr.isJump
  exceptReturn := dr.exceptReturn
  priv := dr.priv
  conditionClause := dr.conditionClause

def decodeInsn (priv : Bool) (pc : Word) (hi lo : Opcode) (dr : DecodeRegs) : DecodeRegs :=
  let dec := opdec hi lo priv
  decodeLoad dec hi lo pc (pc + if hi.getLsbD 15 then 4 else 2)
    { dr with copId := dec.copId, copReg := dec.copReg }

/-- The decode registers after a sequence of halfwords; `next` is the halfword behind its end. -/
def decodeSeq (priv : Bool) (next : Opcode) : Word → DecodeRegs → List Opcode → DecodeRegs
  | _, dr, [] => dr
  | pc, dr, [hi] => decodeInsn priv pc hi next dr
  | pc, dr, hi :: lo :: rest =>
      if hi.getLsbD 15 then decodeSeq priv next (pc + 4) (decodeInsn priv pc hi lo dr) rest
      else decodeSeq priv next (pc + 2) (decodeInsn priv pc hi lo dr) (lo :: rest)

def Location.halfwords (m : Location) (start : Nat) : Nat → List Opcode
  | 0 => []
  | k + 1 => xtcGet16 m start :: Location.halfwords m (start + 2) k

/-! ## Sites -/

/-- An `E24` prefix with condition nibble `cond` and no value yet, before an 8-bit-immediate
instruction (`i8`) or before an extended memory instruction with extension word `0x40xx` (`e8`). -/
inductive Site
  | i8 (pcrel : Bool) (cond : BitVec 4) (cls : BitVec 2) (imm : BitVec 8) (reg : BitVec 4)
  | e8 (cond : BitVec 4) (body : BitVec 12) (imm : BitVec 8)

/-- `br`, `addi`, `cmpi` or `limr`, in its short form or with the extension bit set. -/
def immInsn (ext : BitVec 1) (cls : BitVec 2) (imm : BitVec 8) (reg : BitVec 4) : Opcode :=
  ext ++ 1#1 ++ cls ++ imm ++ reg

def memInsn (body : BitVec 12) : Opcode := 0b1001#4 ++ body

/-- The two halfwords of an `E24` prefix that carries `value`. -/
def e24High (value : Int) : Opcode := 1#1 ++ BitVec.ofInt 15 value

def e24Low (cond : BitVec 4) (value : Int) : Opcode :=
  0b011#3 ++ BitVec.ofInt 1 (value >>> (23 : Nat)) ++ cond ++ BitVec.ofInt 8 (value >>> (15 : Nat))

def e8Low (cond : BitVec 4) (imm : BitVec 8) : Opcode := 0b0100#4 ++ cond ++ imm

def Site.halfwords : Site → List Opcode
  | .i8 _ cond cls imm reg => [e24High 0, e24Low cond 0, immInsn 0 cls imm reg]
  | .e8 cond body imm => [e24High 0, e24Low cond 0, memInsn body, e8Low 0 imm]

def Site.pcrel : Site → Bool
  | .i8 pcrel .. => pcrel
  | .e8 .. => false

def Site.reloc : Site → Reloc
  | .i8 true .. => .e24I8R
  | .i8 false .. => .e24I8
  | .e8 .. => .e24E8

/-- The section contents from the site on: big-endian halfwords, then `rest`. -/
def Site.location (s : Site) (rest : Location) : Location := fun i =>
  match s.halfwords[i / 2]? with
  | some h => if i % 2 = 0 then h.extractLsb 15 8 else h.extractLsb 7 0
  | none => rest i

/-! ## Fields of the words of a site -/

section Fields

variable (ext : BitVec 1) (cls : BitVec 2) (imm : BitVec 8) (reg cond : BitVec 4)
  (body : BitVec 12) (value : Int)

theorem immInsn_ext : (immInsn ext cls imm reg).getLsbD 15 = ext.getLsbD 0 := by
  simp only [immInsn, BitVec.getLsbD_append]
  simp

theorem immInsn_class : (immInsn ext cls imm reg).extractLsb 14 12 = 1#1 ++ cls := by
  apply BitVec.eq_of_getLsbD_eq
  intro i hi
  simp only [immInsn, BitVec.getLsbD_extractLsb, BitVec.getLsbD_append]
  interval_cases i <;> simp

theorem immInsn_imm : (immInsn ext cls imm reg).extractLsb 11 4 = imm :=
  Bits.extractLsb'_field _ imm reg

theorem immInsn_reg : (immInsn ext cls imm reg).extractLsb 3 0 = reg :=
  Bits.extractLsb'_low _ reg

theorem memInsn_ext : (memInsn body).getLsbD 15 = true := by
  simp only [memInsn, BitVec.getLsbD_append]
  simp

theorem memInsn_class : (memInsn body).extractLsb 14 12 = 1#3 := by
  apply BitVec.eq_of_getLsbD_eq
  intro i hi
  simp only [memInsn, BitVec.getLsbD_extractLsb, BitVec.getLsbD_append]
  interval_cases i <;> simp

theorem e8Low_top : (e8Low cond imm).extractLsb 14 12 = 0b100#3 := by
  apply BitVec.eq_of_getLsbD_eq
  intro i hi
  simp only [e8Low, BitVec.getLsbD_extractLsb, BitVec.getLsbD_append]
  interval_cases i <;> simp

theorem e8Low_load : (e8Low cond imm).extractLsb 14 13 = 0b10#2 := by
  apply BitVec.eq_of_getLsbD_eq
  intro i hi
  simp only [e8Low, BitVec.getLsbD_extractLsb, BitVec.getLsbD_append]
  interval_cases i <;> simp

theorem e8Low_cond : (e8Low cond imm).extractLsb 11 8 = cond :=
  Bits.extractLsb'_field _ cond imm

theorem e8Low_imm : (e8Low cond imm).extractLsb 7 0 = imm :=
  Bits.extractLsb'_low _ imm

theorem e24High_ext : (e24High value).getLsbD 15 = true := by
  simp only [e24High, BitVec.getLsbD_append]
  simp

theorem e24Low_top : (e24Low cond value).extractLsb 14 13 = 0b11#2 := by
  apply BitVec.eq_of_getLsbD_eq
  intro i hi
  simp only [e24Low, BitVec.getLsbD_extractLsb, BitVec.getLsbD_append]
  interval_cases i <;> simp

theorem e24Low_cond : (e24Low cond value).extractLsb 11 8 = cond :=
  Bits.extractLsb'_field _ cond _

theorem e24Low_ne_dreg : (e24Low cond value).extractLsb 14 12 ≠ 0b010#3 := by
  intro h
  have h2 := congrArg (BitVec.getLsbD · 2) h
  simp only [e24Low, BitVec.getLsbD_extractLsb, BitVec.getLsbD_append] at h2
  simp at h2

/-- The 24 bits of a prefix, put together as `imm24` puts them. -/
theorem e24_imm24 : BitVec.ofBool ((e24Low cond value).getLsbD 12) ++
    (e24Low cond value).extractLsb 7 0 ++ (e24High value).extractLsb 14 0 =
      BitVec.ofInt 24 value := by
  have h12 : BitVec.ofBool ((e24Low cond value).getLsbD 12) =
      BitVec.ofInt 1 (value >>> (23 : Nat)) := by
    apply BitVec.eq_of_getLsbD_eq
    intro i hi
    simp only [e24Low, BitVec.getLsbD_append]
    interval_cases i
    simp
  have h7 : (e24Low cond value).extractLsb 7 0 = BitVec.ofInt 8 (value >>> (15 : Nat)) :=
    Bits.extractLsb'_low _ _
  have h14 : (e24High value).extractLsb 14 0 = BitVec.ofInt 15 value := Bits.extractLsb'_low _ _
  have hv : value >>> (23 : Nat) = (value >>> (15 : Nat)) >>> (8 : Nat) := by
    rw [← Int.shiftRight_add]
  rw [h12, h7, h14, hv, Bits.ofInt_append 1 8 (value >>> (15 : Nat))]
  exact Bits.ofInt_append 9 15 value

end Fields

/-! ## Decoding one instruction -/

theorem decodeInsn_e24 (priv : Bool) (pc : Word) (cond : BitVec 4) (value : Int) {dr : DecodeRegs}
    (hdr : dr.imflag = false) :
    (decodeInsn priv pc (e24High value) (e24Low cond value) dr).imflag = true ∧
    (decodeInsn priv pc (e24High value) (e24Low cond value) dr).conditionClause =
      opdecCondition cond ∧
    (decodeInsn priv pc (e24High value) (e24Low cond value) dr).imreg =
      (BitVec.ofInt 24 value).signExtend 32 := by
  simp [decodeInsn, decodeLoad, opdec, opdecOp, opdecDefaults, opdecCase, opdecImmediate,
    opdecExtension, decodeImreg, e24High_ext, e24Low_top, e24Low_cond, e24Low_ne_dreg, hdr,
    -BitVec.getLsbD_eq_getElem]
  exact congrArg (BitVec.signExtend 32) (e24_imm24 cond value)

/-- What the four 8-bit-immediate instructions mean. -/
def immMeaning (priv : Bool) (cls : BitVec 2) (reg : BitVec 4) (cond : Condition) : Meaning :=
  let dreg := regaddress priv reg
  let m : Meaning :=
    { decoded := .br, source1 := none, source2 := none, dest := some (dreg, .alu),
      aluOp := some .add, aluSource := .immed, useCarry := false, ismult := false,
      modifyFlags := false, memory := none, blocks := false, sprwe := false, sr := none,
      cop := none, jump := .none, isJump := false, exceptReturn := false, priv := false,
      conditionClause := cond }
  match cls.toNat with
  | 0 => { m with dest := some (dreg, .pcnext), aluOp := none, aluSource := .reg, jump := .iPcrel,
                  isJump := true }
  | 1 => { m with decoded := .addi, source1 := some dreg }
  | 2 => { m with decoded := .cmpi, source1 := some dreg, dest := none, aluOp := some .sub,
                  modifyFlags := true }
  | _ => { m with decoded := .limr, source1 := some 0 }

theorem bitVec2_cases (cls : BitVec 2) : cls = 0 ∨ cls = 1 ∨ cls = 2 ∨ cls = 3 := by
  decide +revert

theorem decodeInsn_imm_short (priv : Bool) (pc : Word) (cls : BitVec 2) (imm : BitVec 8)
    (reg : BitVec 4) (lo : Opcode) (dr : DecodeRegs) :
    meaning (decodeInsn priv pc (immInsn 0 cls imm reg) lo dr) =
      immMeaning priv cls reg (if dr.imflag then dr.conditionClause else .unconditional) ∧
    (decodeInsn priv pc (immInsn 0 cls imm reg) lo dr).imreg =
      if dr.imflag then dr.imreg.extractLsb 23 0 ++ imm else imm.signExtend 32 := by
  obtain rfl | rfl | rfl | rfl := bitVec2_cases cls <;>
    simp [decodeInsn, decodeLoad, opdec, opdecOp, opdecClass, opdecDefaults, opdecCase,
      opdecImmediate, opdecExtension, decodeImreg, immInsn_ext, immInsn_class, immInsn_imm,
      immInsn_reg, meaning, immMeaning, -BitVec.getLsbD_eq_getElem]

theorem decodeInsn_imm_ext (priv : Bool) (pc : Word) (cls : BitVec 2) (imm immh : BitVec 8)
    (reg cond : BitVec 4) {dr : DecodeRegs} (hdr : dr.imflag = false) :
    meaning (decodeInsn priv pc (immInsn 1 cls imm reg) (e8Low cond immh) dr) =
      immMeaning priv cls reg (opdecCondition cond) ∧
    (decodeInsn priv pc (immInsn 1 cls imm reg) (e8Low cond immh) dr).imreg =
      (immh ++ imm).signExtend 32 := by
  obtain rfl | rfl | rfl | rfl := bitVec2_cases cls <;>
    simp [decodeInsn, decodeLoad, opdec, opdecOp, opdecClass, opdecDefaults, opdecCase,
      opdecImmediate, opdecExtension, decodeImreg, immInsn_ext, immInsn_class, immInsn_imm,
      immInsn_reg, e8Low_top, e8Low_load, e8Low_cond, e8Low_imm, meaning, immMeaning, hdr,
      -BitVec.getLsbD_eq_getElem]

def memMeaning (priv : Bool) (body : BitVec 12) (cond : Condition) : Meaning :=
  let op := memInsn body
  { decoded := if op.getLsbD 11 then .ld else .st
    source1 := some (regaddress priv (op.extractLsb 3 0))
    source2 := some (regaddress priv (op.extractLsb 7 4))
    dest := none, aluOp := some (opdecAluOp op).1, aluSource := .reg, useCarry := false,
    ismult := false, modifyFlags := false, memory := some (opdecMtype op, !op.getLsbD 11),
    blocks := op.getLsbD 11, sprwe := false, sr := none, cop := none, jump := .none,
    isJump := false, exceptReturn := false, priv := false, conditionClause := cond }

theorem decodeInsn_mem (priv : Bool) (pc : Word) (body : BitVec 12) (imm : BitVec 8)
    (dr : DecodeRegs) :
    meaning (decodeInsn priv pc (memInsn body) (e8Low 0 imm) dr) =
      memMeaning priv body (if dr.imflag then dr.conditionClause else .unconditional) ∧
    (decodeInsn priv pc (memInsn body) (e8Low 0 imm) dr).imreg =
      if dr.imflag then dr.imreg.extractLsb 23 0 ++ imm else imm.signExtend 32 := by
  cases h : (memInsn body).getLsbD 11 <;>
    simp [decodeInsn, decodeLoad, opdec, opdecOp, opdecClass, opdecDefaults, opdecCase,
      opdecImmediate, opdecExtension, decodeImreg, memInsn_ext, memInsn_class, h, e8Low_top,
      opdecCondition, e8Low_load, e8Low_cond, e8Low_imm, meaning, memMeaning,
      -BitVec.getLsbD_eq_getElem]

end Xtc.Linker
