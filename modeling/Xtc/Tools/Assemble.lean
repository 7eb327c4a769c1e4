import Xtc.Tools.Insn

/-!
# Assemble — `md_assemble` of `tc-xtc.c`

From an instruction line to the halfwords and the fixup it puts into the section.  The line comes
with its text split into operands; a diagnostic of either kind (`as_bad`, `as_fatal`) ends the
model, since no object file is written after it.
-/

namespace Xtc.Tools

open Xtc.Linker

inductive Diagnostic
  | isExtended | cannotExtend | noImmed | noDreg
  | statement | registerExpected | constantOrLabel | range | memoryExpected | onlyGpr
  | specialRegister | gprRegister | immediateSuffix | copId | copReg | nyi | extraOperands
  deriving DecidableEq, Repr

/-- What one line adds to the section: its halfwords, and the relocation of a fixup on them. -/
structure Frag where
  words : List Opcode
  fixup : Option Reloc

/-! ## Operands -/

abbrev Asm := Except Diagnostic

def checkGprReg (r : Fin 32) : Bool := r.val < 16

def requireGpr (r : Fin 32) : Asm Unit :=
  if checkGprReg r then .ok () else .error .specialRegister

def requireSpr (r : Fin 32) : Asm Unit :=
  if checkGprReg r then .error .gprRegister else .ok ()

def parseReg : List Operand → Asm (Fin 32 × List Operand)
  | [] => .error .statement
  | .reg r :: rest => .ok (r, rest)
  | _ => .error .registerExpected

def parseImm (min max : Int) : List Operand → Asm (Expr × List Operand)
  | [] => .error .statement
  | .imm (.constant v) :: rest =>
      if v.toInt < min ∨ max < v.toInt then .error .range else .ok (.constant v, rest)
  | .imm e :: rest => .ok (e, rest)
  | _ => .error .constantOrLabel

def minImm : Int := -0x80000000
def maxImm : Int := 0x7fffffff

def parseMemory : List Operand → Asm (Fin 32 × Option Expr × List Operand)
  | .mem base disp :: rest =>
      if checkGprReg base then .ok (base, disp, rest) else .error .onlyGpr
  | _ => .error .memoryExpected

def noExtraOperands : List Operand → Asm Unit
  | [] => .ok ()
  | _ => .error .extraOperands

/-! ## Encoding -/

def instBytes (inst : Word) : Opcode := inst.extractLsb 15 0

/-- `inst |= (reg1 << RA_LOW) & RA_MASK; inst |= (reg2 << RB_LOW) & RB_MASK;` -/
def instRegs (inst : Word) (reg1 reg2 : Nat) : Word :=
  inst ||| (BitVec.ofNat 32 reg1 &&& 0x000F#32) ||| (BitVec.ofNat 32 reg2 <<< 4 &&& 0x00F0#32)

/-- `xtc_count_bits`: the loop, with `count` left to go. -/
def xtcCountBitsFrom (sign : Bool) : Nat → Word → Nat
  | 0, _ => 0
  | count + 1, immed =>
      let immed := immed <<< 1
      if immed.msb ≠ sign then count + 1 else xtcCountBitsFrom sign count immed

def xtcCountBits (immed : Word) : Nat :=
  if immed = 0 then 0 else xtcCountBitsFrom immed.msb 31 immed + 1

def xtcEmitE24 (value : Word) (cc : BitVec 4) : List Opcode :=
  let inst : Word := 0x80006000 ||| (value &&& 0x7fff) <<< 16
  let value := value.sshiftRight 15
  let inst := inst ||| cc.setWidth 32 <<< 8
  let inst := inst ||| (value &&& 0xff)
  let value := value.sshiftRight 8
  let inst := inst ||| (value &&& 1) <<< 12
  [inst.extractLsb 31 16, inst.extractLsb 15 0]

/-- `make_extended`; the condition lands on the bits of the type. -/
def makeExtended (inst : Word) (condition : BitVec 4) (flags : ExtFlags) (immedDreg : Word) :
    Word :=
  let i := inst <<< 16 ||| 0x80000000 ||| condition.setWidth 32 <<< 12
  match flags with
  | .immed => i ||| (immedDreg &&& 0xff) ||| 0x4000
  | .dreg => i ||| (immedDreg &&& 0xff) ||| 0x2000
  | .none => i

def xtcApplyImm8 (inst immed : Word) : Word :=
  (inst &&& ~~~0x0FF0#32) ||| (immed <<< 8 &&& 0x0FF0#32)

def xtcBuildExtension (condition : BitVec 4) : ExtFlags → BitVec 8
  | .immed => 0x40 + condition.setWidth 8
  | .dreg => 0x20 + condition.setWidth 8
  | .none => condition.setWidth 8

/-- `xtc_emit_immed_and_frag`: the halfwords before the instruction, the instruction, and the
halfwords behind it. -/
def xtcEmitImmedAndFrag (imm : ImmType) (condition : BitVec 4) (flags : ExtFlags)
    (inst immed : Word) : List Opcode × Word × List Opcode :=
  let bits := xtcCountBits immed
  let forceExtension := condition ≠ 0 ∨ flags ≠ .none
  if imm = .imm8 then
    let inst := xtcApplyImm8 inst immed
    let immed := immed.sshiftRight 8
    if bits ≤ 8 ∧ ¬forceExtension then ([], inst, [])
    else if bits ≤ 16 ∨ forceExtension then
      ([], inst ||| 0x8000, [xtcBuildExtension condition .immed ++ immed.setWidth 8])
    else (xtcEmitE24 immed 0, inst, [])
  else if bits ≤ 8 then
    ([], inst ||| 0x8000, [xtcBuildExtension condition .immed ++ immed.setWidth 8])
  else (xtcEmitE24 immed 0, inst, [])

/-! ## Instructions -/

namespace Line

/-- `extension.condition`; a `c` without a known name leaves it at zero. -/
def condition (l : Line) : BitVec 4 := (l.cond.map CondCode.encoding).getD 0

/-- `switch (opcode->ext)`. -/
def checkExtension (l : Line) : Asm Unit :=
  if l.suffix.isNone then .ok ()
  else match l.mnemonic.entry.ext with
    | .isExt => .error .isExtended
    | .noExt => .error .cannotExtend
    | .canExtDreg => if l.flags = .immed then .error .noImmed else .ok ()
    | .canExtImmed => if l.flags = .dreg then .error .noDreg else .ok ()
    | .canExtAll => .ok ()

def assembleSpr (l : Line) (reg1 reg2 : Fin 32) (ops : List Operand) : Asm Frag := do
  requireGpr reg1
  requireSpr reg2
  let inst := l.mnemonic.entry.bitSequence ||| (BitVec.ofNat 32 reg1 &&& 0x000F#32) |||
    (BitVec.ofNat 32 (reg2 - 16) <<< 4 &&& 0x0070#32)
  noExtraOperands ops
  return ⟨[instBytes inst], none⟩

def checkDisplacement (l : Line) (disp : Option Expr) : Asm Unit :=
  if disp.isSome ∧ l.flags ≠ .immed then .error .immediateSuffix else .ok ()

def assembleMemory (l : Line) (reg1 reg2 : Fin 32) (disp : Option Expr) (ops : List Operand) :
    Asm Frag := do
  l.checkDisplacement disp
  let inst := instRegs l.mnemonic.entry.bitSequence reg1 reg2
  requireGpr reg2
  -- with a displacement the suffix is not looked at again, nor are further operands
  if disp.isSome then
    return ⟨xtcEmitE24 0 0 ++ [instBytes (inst ||| 0x8000), 0x4000], some .e24E8⟩
  noExtraOperands ops
  return ⟨[instBytes inst], none⟩

def assembleR1R2 (l : Line) (reg1 reg2 : Fin 32) (ops : List Operand) : Asm Frag := do
  requireGpr reg1
  requireGpr reg2
  let opcode := l.mnemonic.entry
  let inst := instRegs opcode.bitSequence reg1 reg2
  match l.flags with
  | .dreg =>
      let (reg3, ops) ← parseReg ops
      let inst := makeExtended inst l.condition l.flags (BitVec.ofNat 32 reg3)
      noExtraOperands ops
      return ⟨[instBytes (inst >>> 16), instBytes inst], none⟩
  | .immed =>
      let (exp, ops) ← parseImm minImm maxImm ops
      let (before, inst, behind) :=
        xtcEmitImmedAndFrag opcode.imm l.condition l.flags inst exp.xAddNumber
      noExtraOperands ops
      return ⟨before ++ [instBytes inst] ++ behind, none⟩
  | .none =>
      noExtraOperands ops
      return ⟨[instBytes inst], none⟩

def assembleImm8R (l : Line) (reg1 : Fin 32) : Asm Frag := do
  requireGpr reg1
  let inst := l.mnemonic.entry.bitSequence ||| (BitVec.ofNat 32 reg1 &&& 0x000F#32)
  let newReloc := if l.mnemonic.entry.pcOffset then Reloc.e24I8R else Reloc.e24I8
  if l.condition ≠ 0 then
    return ⟨xtcEmitE24 0 l.condition ++ [instBytes inst], some newReloc⟩
  else
    return ⟨xtcEmitE24 0 0 ++ [instBytes inst], some newReloc⟩

/-- The register is not checked, and the id is shifted past its field. -/
def assembleCop (l : Line) (copid copreg : Word) (reg1 : Fin 32) (ops : List Operand) :
    Asm Frag := do
  let inst := l.mnemonic.entry.bitSequence ||| copid <<< 9 ||| copreg <<< 4 |||
    BitVec.ofNat 32 reg1
  noExtraOperands ops
  return ⟨[instBytes inst], none⟩

def parseConstant (min max : Int) (e : Diagnostic) (ops : List Operand) :
    Asm (Word × List Operand) := do
  match ← parseImm min max ops with
  | (.constant v, ops) => return (v, ops)
  | _ => .error e

def mdAssemble (l : Line) : Asm Frag := do
  l.checkExtension
  match l.instType with
  | .rspr =>
      let (reg2, ops) ← parseReg l.operands
      let (reg1, ops) ← parseReg ops
      l.assembleSpr reg1 reg2 ops
  | .wspr =>
      let (reg1, ops) ← parseReg l.operands
      let (reg2, ops) ← parseReg ops
      l.assembleSpr reg1 reg2 ops
  | .memLoad =>
      let (reg1, disp, ops) ← parseMemory l.operands
      let (reg2, ops) ← parseReg ops
      l.assembleMemory reg1 reg2 disp ops
  | .memStore =>
      let (reg2, ops) ← parseReg l.operands
      let (reg1, disp, ops) ← parseMemory ops
      l.assembleMemory reg1 reg2 disp ops
  | .r1R2 =>
      let (reg2, ops) ← parseReg l.operands
      let (reg1, ops) ← parseReg ops
      l.assembleR1R2 reg1 reg2 ops
  | .imm8R =>
      let (_, ops) ← parseImm minImm maxImm l.operands
      let (reg1, _) ← parseReg ops
      l.assembleImm8R reg1
  | .cop =>
      let (copid, ops) ← parseConstant 0 3 .copId l.operands
      let (copreg, ops) ← parseConstant 0 15 .copReg ops
      let (reg1, ops) ← parseReg ops
      l.assembleCop copid copreg reg1 ops
  | .noargs =>
      noExtraOperands l.operands
      return ⟨[instBytes l.mnemonic.entry.bitSequence], none⟩
  | .imm =>
      let _ ← parseImm minImm maxImm l.operands
      .error .nyi

end Line

end Xtc.Tools
