import Xtc.Softsim.Cpu

/-!
# Executor — the instructions of the simulator `softsim`

`decode.c`, the handlers of `alu_ops.c`, `reg_ops.c`, `cflow_ops.c` and `mem_ops.c`, and
`execute_single_opcode_fjp` with the loop of `execute`.  The trace file is left out.  A shift by 32
or more is undefined; its result is an input of the step.
-/

namespace Xtc

namespace Softsim

/-- The type `opcode_type_t`. -/
inductive Opv
  | nop | add | addc | sub | subb | and | or | copy | xor | sra | srl | shl | mul | cmp | addi | imm
  | limr | calli | ret
  | stw | sts | stb | stspr | stwp | stsp | stbp | stsprp
  | ldw | lds | ldb | ldspr | ldwp | ldsp | ldbp | ldsprp
  | bri | brie | brine | brilt | brile | brigt | brige | briugt | briult | briuge | briule | cmpi
  deriving DecidableEq, Repr

structure Opcode where
  opv : Opv
  r1 : BitVec 4
  r2 : BitVec 4
  immed : Word
  op : BitVec 16
  aluOpImmed : Bool
  deriving DecidableEq

/-! ## `decode.c` -/

def getImm8 (cpu : Cpu) (op : BitVec 16) : Word :=
  if cpu.imflag then cpu.imm <<< 8 ||| (op.extractLsb' 4 8).setWidth 32
  else (op.extractLsb' 4 8).signExtend 32

def getImm12 (cpu : Cpu) (op : BitVec 16) : Word :=
  if cpu.imflag then cpu.imm <<< 12 ||| (op.extractLsb' 0 12).setWidth 32
  else (op.extractLsb' 0 12).signExtend 32

def decodeAlu (k : BitVec 4) : Opv :=
  match k.toNat with
  | 0x0 => .add
  | 0x1 => .addc
  | 0x2 => .sub
  | 0x3 => .subb
  | 0x4 => .and
  | 0x5 => .or
  | 0x6 => .cmp
  | 0x7 => .xor
  | 0x8 | 0xC => .shl
  | 0x9 | 0xD => .srl
  | 0xA | 0xE => .sra
  | _ => .mul

def decodeStore (k : BitVec 3) : Opv :=
  match k.toNat with
  | 0 => .stw
  | 1 => .sts
  | 2 => .stb
  | 3 => .stspr
  | 4 => .stwp
  | 5 => .stsp
  | 6 => .stbp
  | _ => .stsprp

def decodeLoad (k : BitVec 3) : Opv :=
  match k.toNat with
  | 0 => .ldw
  | 1 => .lds
  | 2 => .ldb
  | 3 => .ldspr
  | 4 => .ldwp
  | 5 => .ldsp
  | 6 => .ldbp
  | _ => .ldsprp

def decodeBranch (k : BitVec 4) : Option Opv :=
  match k.toNat with
  | 0x0 => some .bri
  | 0x8 => some .brie
  | 0x9 => some .brine
  | 0xA => some .brigt
  | 0xB => some .brige
  | 0xC => some .brilt
  | 0xD => some .brile
  | 0xE => some .briugt
  | 0xF => some .briuge
  | 0x1 => some .briult
  | 0x2 => some .briule
  | _ => none

/-- The operation with its immediate and `alu_op_immed`; an immediate that is not set is not read.
-/
def decodeOp (cpu : Cpu) (op : BitVec 16) : Option (Opv × Word × Bool) :=
  match (op.extractLsb' 12 4).toNat with
  | 0x0 => some (.nop, 0, false)
  | 0x5 => some (decodeAlu (op.extractLsb' 8 4), cpu.imm, true)
  | 0x1 => some (decodeAlu (op.extractLsb' 8 4), 0, false)
  | 0x2 => some (decodeStore (op.extractLsb' 8 3), cpu.imm, false)
  | 0x4 => some (decodeLoad (op.extractLsb' 8 3), cpu.imm, false)
  | 0x6 => some (.addi, getImm8 cpu op, false)
  | 0x7 => some (.cmpi, getImm8 cpu op, false)
  | 0x8 => some (.imm, getImm12 cpu op, false)
  | 0x9 => some (.bri, getImm8 cpu op, false)
  | 0xA => (decodeBranch (op.extractLsb' 0 4)).map fun opv => (opv, getImm8 cpu op, false)
  | 0xD => some (.calli, getImm8 cpu op, false)
  | 0xE => some (.limr, getImm8 cpu op, false)
  | 0xF => some (.ret, 0, false)
  | _ => none

def decodeSingleOpcode (cpu : Cpu) (op : BitVec 16) : Option Opcode :=
  (decodeOp cpu op).map fun (opv, immed, aluOpImmed) =>
    { opv := opv
      r1 := op.extractLsb' 0 4
      r2 := op.extractLsb' 4 4
      immed := immed
      op := op
      aluOpImmed := aluOpImmed }

/-! ## `alu_ops.c` -/

section Handlers

variable (o : Opcode)

def unhandledOp : Sim Unit := do
  let cpu ← getCpu
  throw (.unhandledOpcode o.op cpu.pc)

def aluOperand (cpu : Cpu) : Word := if o.aluOpImmed then o.immed else cpu.regs o.r1

def aluAdd (cpu : Cpu) : Cpu := cpu.setReg o.r1 (cpu.regs o.r2 + aluOperand o cpu)

/-- The flags compare the result, not what was subtracted from. -/
def aluSub (cpu : Cpu) : Cpu :=
  let operand := if o.aluOpImmed then o.immed else cpu.regs o.r2
  let cpu := cpu.setReg o.r1 (cpu.regs o.r1 - operand)
  { cpu with
    zero := cpu.regs o.r1 == cpu.regs o.r2
    carry := (cpu.regs o.r2).toNat < (cpu.regs o.r1).toNat }

def aluLogic (f : Word → Word → Word) (cpu : Cpu) : Cpu :=
  let cpu := cpu.setReg o.r1 (f (cpu.regs o.r2) (aluOperand o cpu))
  { cpu with zero := cpu.regs o.r1 == 0, carry := false }

def aluAnd (cpu : Cpu) : Cpu := aluLogic o (· &&& ·) cpu

def aluOr (cpu : Cpu) : Cpu := aluLogic o (· ||| ·) cpu

def aluCopy (cpu : Cpu) : Cpu := cpu.setReg o.r1 (cpu.regs o.r2)

/-- Unlike `and` and `or`, `xor` leaves the flags as they are. -/
def aluXor (cpu : Cpu) : Cpu := cpu.setReg o.r1 (cpu.regs o.r2 ^^^ aluOperand o cpu)

def aluShift (f : Word → Nat → Word) (undefined : Word) (cpu : Cpu) : Cpu :=
  let n := (cpu.regs o.r2).toNat
  cpu.setReg o.r1 (if n < 32 then f (cpu.regs o.r1) n else undefined)

def aluSra (undefined : Word) (cpu : Cpu) : Cpu := aluShift o BitVec.sshiftRight undefined cpu

def aluSrl (undefined : Word) (cpu : Cpu) : Cpu := aluShift o (· >>> ·) undefined cpu

def aluShl (undefined : Word) (cpu : Cpu) : Cpu := aluShift o (· <<< ·) undefined cpu

def aluMul (cpu : Cpu) : Cpu := cpu.setReg o.r1 (cpu.regs o.r1 * cpu.regs o.r2)

def setFlags (subr : BitVec 64) (cpu : Cpu) : Cpu :=
  { cpu with zero := subr == 0, carry := subr.getLsbD 32, sign := subr.getLsbD 31 }

def aluCmp (cpu : Cpu) : Cpu :=
  setFlags ((cpu.regs o.r1).setWidth 64 - (cpu.regs o.r2).setWidth 64) cpu

/-! ## `reg_ops.c` -/

def regAddi (cpu : Cpu) : Cpu := cpu.setReg o.r1 (cpu.regs o.r1 + o.immed)

def regImm (cpu : Cpu) : Cpu := { cpu with resetImmed := false }

def regLimr (cpu : Cpu) : Cpu := cpu.setReg o.r1 o.immed

/-- The variable `immed` is an `int`: its sign goes into the upper half. -/
def regCmpi (cpu : Cpu) : Cpu :=
  setFlags ((cpu.regs o.r1).setWidth 64 - o.immed.signExtend 64) cpu

/-! ## `cflow_ops.c` -/

def branch (taken : Bool) (cpu : Cpu) : Cpu :=
  if taken then { cpu with branchNext := cpu.npc + o.immed } else cpu

def cflowCalli (cpu : Cpu) : Cpu := (branch o true cpu).setSpr 1 (cpu.npc + 2)

def cflowRet (cpu : Cpu) : Cpu := { cpu with branchNext := cpu.spr 1 }

def cflowBri (cpu : Cpu) : Cpu := branch o true cpu

def cflowBrie (cpu : Cpu) : Cpu := branch o cpu.zero cpu

def cflowBrine (cpu : Cpu) : Cpu := branch o (!cpu.zero) cpu

def cflowBrilt (cpu : Cpu) : Cpu := branch o cpu.sign cpu

def cflowBrile (cpu : Cpu) : Cpu := branch o (cpu.sign || cpu.zero) cpu

def cflowBrigt (cpu : Cpu) : Cpu := branch o (!cpu.sign && !cpu.zero) cpu

def cflowBrige (cpu : Cpu) : Cpu := branch o (!cpu.sign) cpu

def cflowBriugt (cpu : Cpu) : Cpu := branch o (!cpu.carry) cpu

def cflowBriuge (cpu : Cpu) : Cpu := branch o (!cpu.carry || cpu.zero) cpu

def cflowBriult (cpu : Cpu) : Cpu := branch o cpu.carry cpu

def cflowBriule (cpu : Cpu) : Cpu := branch o (cpu.carry || cpu.zero) cpu

/-! ## `mem_ops.c` -/

def memStw : Sim Unit := handleStore o.r1 o.r2 o.immed

def memSts : Sim Unit := handleStoreShort o.r1 o.r2 o.immed

def memStb : Sim Unit := handleStoreByte o.r1 o.r2 o.immed

def memStspr : Sim Unit := do
  let cpu ← getCpu
  handleStoreVal o.r1 (cpu.spr (o.r2.setWidth 3)) o.immed

def memLdw : Sim Unit := do
  let w ← handleRead o.r1 o.immed
  modifyCpu fun cpu => cpu.setReg o.r2 w

def memLds : Sim Unit := do
  let w ← handleReadShort o.r1 o.immed
  modifyCpu fun cpu => cpu.setReg o.r2 w

def memLdb : Sim Unit := do
  let w ← handleReadByte o.r1 o.immed
  modifyCpu fun cpu => cpu.setReg o.r2 w

def memLdbp : Sim Unit := do
  let w ← handleReadByte o.r1 o.immed
  modifyCpu fun cpu =>
    let cpu := cpu.setReg o.r2 w
    cpu.setReg o.r1 (cpu.regs o.r1 + 1)

def memLdspr : Sim Unit := do
  let w ← handleRead o.r1 o.immed
  modifyCpu fun cpu => cpu.setSpr (o.r2.setWidth 3) w

/-! ## `executor.c` -/

def handler (undefined : Word) : Sim Unit :=
  match o.opv with
  | .nop => pure ()
  | .add => modifyCpu (aluAdd o)
  | .addc => unhandledOp o
  | .sub => modifyCpu (aluSub o)
  | .subb => unhandledOp o
  | .and => modifyCpu (aluAnd o)
  | .or => modifyCpu (aluOr o)
  | .copy => modifyCpu (aluCopy o)
  | .xor => modifyCpu (aluXor o)
  | .sra => modifyCpu (aluSra o undefined)
  | .srl => modifyCpu (aluSrl o undefined)
  | .shl => modifyCpu (aluShl o undefined)
  | .mul => modifyCpu (aluMul o)
  | .cmp => modifyCpu (aluCmp o)
  | .addi => modifyCpu (regAddi o)
  | .imm => modifyCpu regImm
  | .limr => modifyCpu (regLimr o)
  | .calli => modifyCpu (cflowCalli o)
  | .ret => modifyCpu cflowRet
  | .stw => memStw o
  | .sts => memSts o
  | .stb => memStb o
  | .stspr => memStspr o
  | .stwp => unhandledOp o
  | .stsp => unhandledOp o
  | .stbp => unhandledOp o
  | .stsprp => unhandledOp o
  | .ldw => memLdw o
  | .lds => memLds o
  | .ldb => memLdb o
  | .ldspr => memLdspr o
  | .ldwp => unhandledOp o
  | .ldsp => unhandledOp o
  | .ldbp => memLdbp o
  | .ldsprp => unhandledOp o
  | .bri => modifyCpu (cflowBri o)
  | .brie => modifyCpu (cflowBrie o)
  | .brine => modifyCpu (cflowBrine o)
  | .brilt => modifyCpu (cflowBrilt o)
  | .brile => modifyCpu (cflowBrile o)
  | .brigt => modifyCpu (cflowBrigt o)
  | .brige => modifyCpu (cflowBrige o)
  | .briugt => modifyCpu (cflowBriugt o)
  | .briult => modifyCpu (cflowBriult o)
  | .briuge => modifyCpu (cflowBriuge o)
  | .briule => modifyCpu (cflowBriule o)
  | .cmpi => modifyCpu (regCmpi o)

def beginOpcode (cpu : Cpu) : Cpu :=
  { cpu with
    npc := if cpu.branchNext ≠ -1 then cpu.branchNext else cpu.pc + 2
    branchNext := -1
    resetImmed := true }

def endOpcode (cpu : Cpu) : Cpu :=
  { cpu with
    imm := if cpu.resetImmed then 0 else o.immed
    imflag := !cpu.resetImmed }.setSpr 0 cpu.npc

def executeSingleOpcodeFjp (undefined : Word) : Sim Unit := do
  modifyCpu beginOpcode
  handler o undefined
  modifyCpu (endOpcode o)

end Handlers

def fetch : Sim (BitVec 16) := do
  let cpu ← getCpu
  let b₁ ← readByte cpu.pc
  let b₀ ← readByte (cpu.pc + 1)
  return b₁ ++ b₀

/-- One round of the loop of `execute`. -/
def step (undefined : Word) : Sim Unit := do
  let inst ← fetch
  let cpu ← getCpu
  match decodeSingleOpcode cpu inst with
  | some o => executeSingleOpcodeFjp o undefined
  | none => throw (.invalidOpcode inst cpu.pc)

/-- What a round does to a guest. -/
def round (undefined : Word) (cpu : Cpu) : EStateM.Result Abort Machine Unit :=
  step undefined ⟨cpu, [], [], []⟩

def execute (undefined : Nat → Word) (cpu : Cpu) : Nat → Option Cpu
  | 0 => some cpu
  | n + 1 =>
      match (execute undefined cpu n).map (round (undefined n)) with
      | some (.ok () m) => some m.cpu
      | _ => none

end Softsim

end Xtc
