import Xtc.Linker.Site

/-!
# Opcodes — the opcode table `xtc-opc.h` and what its lines stand for

The table shared by the assembler and the disassembler, an instruction line after its text is
split into operands, and the meaning of a line: the operation, the registers and the condition
that its mnemonic, suffix and operands name.  The decoder's side of the comparison is `executed`.
-/

namespace Xtc.Tools

open Xtc.Linker

/-! ## The table -/

inductive InstType
  | r1R2 | imm | imm8R | memLoad | memStore | noargs | cop | rspr | wspr
  deriving DecidableEq, Repr

inductive ExtAbility
  | noExt | isExt | canExtDreg | canExtImmed | canExtAll
  deriving DecidableEq, Repr

inductive ImmType
  | noImm | imm8 | immChangesMeaning
  deriving DecidableEq, Repr

/-- The names of the table; `inc` stands for the `+` of a post-increment. -/
inductive Mnemonic
  | imm
  | add | addc | sub | subb | and | or | xor | cmp
  | shl | srl | sra | mul | addr | not | cadd | csub
  | stw | sts | stb | stwInc | stsInc | stbInc
  | ldw | lds | ldb | ldwInc | ldsInc | ldbInc
  | copr | copw
  | br | addi | cmpi | limr
  | jmp | jmpe | sextb | sexts
  | rspr | wspr | rusr | wusr | swi | nop
  deriving DecidableEq, Repr

/-- `op_code_struct`, without the name and the unused `instr`. -/
structure OpCodeStruct where
  ext : ExtAbility
  imm : ImmType
  instType : InstType
  bitSequence : Word
  opcodeMask : Word
  pcOffset : Bool

def opcodeMaskH : Word := 0x7000
def opcodeMaskExt : Word := 0x7F00
def opcodeMaskCop : Word := 0x7C00
def opcodeMaskImm : Word := 0x60008000

def Mnemonic.entry : Mnemonic → OpCodeStruct
  | .imm => ⟨.isExt, .imm8, .imm, 0x60008000, opcodeMaskImm, false⟩
  | .add => ⟨.canExtAll, .noImm, .r1R2, 0x0000, opcodeMaskExt, false⟩
  | .addc => ⟨.canExtAll, .noImm, .r1R2, 0x0100, opcodeMaskExt, false⟩
  | .sub => ⟨.canExtAll, .noImm, .r1R2, 0x0200, opcodeMaskExt, false⟩
  | .subb => ⟨.canExtAll, .noImm, .r1R2, 0x0300, opcodeMaskExt, false⟩
  | .and => ⟨.canExtAll, .noImm, .r1R2, 0x0400, opcodeMaskExt, false⟩
  | .or => ⟨.canExtAll, .noImm, .r1R2, 0x0500, opcodeMaskExt, false⟩
  | .xor => ⟨.canExtAll, .noImm, .r1R2, 0x0600, opcodeMaskExt, false⟩
  | .cmp => ⟨.canExtAll, .noImm, .r1R2, 0x0700, opcodeMaskExt, false⟩
  | .shl => ⟨.canExtAll, .noImm, .r1R2, 0x0800, opcodeMaskExt, false⟩
  | .srl => ⟨.canExtAll, .noImm, .r1R2, 0x0900, opcodeMaskExt, false⟩
  | .sra => ⟨.canExtAll, .noImm, .r1R2, 0x0A00, opcodeMaskExt, false⟩
  | .mul => ⟨.canExtAll, .noImm, .r1R2, 0x0B00, opcodeMaskExt, false⟩
  | .addr => ⟨.canExtAll, .noImm, .r1R2, 0x0C00, opcodeMaskExt, false⟩
  | .not => ⟨.canExtAll, .noImm, .r1R2, 0x0D00, opcodeMaskExt, false⟩
  | .cadd => ⟨.canExtAll, .noImm, .r1R2, 0x0E00, opcodeMaskExt, false⟩
  | .csub => ⟨.canExtAll, .noImm, .r1R2, 0x0F00, opcodeMaskExt, false⟩
  | .stw => ⟨.canExtImmed, .noImm, .memStore, 0x1000, opcodeMaskExt, false⟩
  | .sts => ⟨.canExtImmed, .noImm, .memStore, 0x1100, opcodeMaskExt, false⟩
  | .stb => ⟨.canExtImmed, .noImm, .memStore, 0x1200, opcodeMaskExt, false⟩
  | .stwInc => ⟨.canExtImmed, .noImm, .memStore, 0x1400, opcodeMaskExt, false⟩
  | .stsInc => ⟨.canExtImmed, .noImm, .memStore, 0x1500, opcodeMaskExt, false⟩
  | .stbInc => ⟨.canExtImmed, .noImm, .memStore, 0x1600, opcodeMaskExt, false⟩
  | .ldw => ⟨.canExtImmed, .noImm, .memLoad, 0x1800, opcodeMaskExt, false⟩
  | .lds => ⟨.canExtImmed, .noImm, .memLoad, 0x1900, opcodeMaskExt, false⟩
  | .ldb => ⟨.canExtImmed, .noImm, .memLoad, 0x1A00, opcodeMaskExt, false⟩
  | .ldwInc => ⟨.canExtImmed, .noImm, .memLoad, 0x1C00, opcodeMaskExt, false⟩
  | .ldsInc => ⟨.canExtImmed, .noImm, .memLoad, 0x1D00, opcodeMaskExt, false⟩
  | .ldbInc => ⟨.canExtImmed, .noImm, .memLoad, 0x1E00, opcodeMaskExt, false⟩
  | .copr => ⟨.noExt, .noImm, .cop, 0x2000, opcodeMaskCop, false⟩
  | .copw => ⟨.noExt, .noImm, .cop, 0x2400, opcodeMaskCop, false⟩
  | .br => ⟨.canExtImmed, .imm8, .imm8R, 0x4000, opcodeMaskH, true⟩
  | .addi => ⟨.canExtAll, .imm8, .imm8R, 0x5000, opcodeMaskH, false⟩
  | .cmpi => ⟨.canExtImmed, .imm8, .imm8R, 0x6000, opcodeMaskH, false⟩
  | .limr => ⟨.canExtImmed, .imm8, .imm8R, 0x7000, opcodeMaskH, false⟩
  | .jmp => ⟨.noExt, .noImm, .r1R2, 0x3000, opcodeMaskExt, false⟩
  | .jmpe => ⟨.noExt, .noImm, .r1R2, 0x3400, opcodeMaskExt, false⟩
  | .sextb => ⟨.canExtAll, .noImm, .r1R2, 0x3800, opcodeMaskExt, false⟩
  | .sexts => ⟨.canExtAll, .noImm, .r1R2, 0x3A00, opcodeMaskExt, false⟩
  | .rspr => ⟨.noExt, .noImm, .rspr, 0x3C00, opcodeMaskExt, false⟩
  | .wspr => ⟨.noExt, .noImm, .wspr, 0x3E00, opcodeMaskExt, false⟩
  | .rusr => ⟨.noExt, .noImm, .r1R2, 0x3D00, opcodeMaskExt, false⟩
  | .wusr => ⟨.noExt, .noImm, .r1R2, 0x3F00, opcodeMaskExt, false⟩
  | .swi => ⟨.noExt, .noImm, .noargs, 0x2800, opcodeMaskExt, false⟩
  | .nop => ⟨.noExt, .noImm, .noargs, 0x3800, 0x7FFF, false⟩

/-- The names in the order of `opcodes[]`. -/
def opcodes : List Mnemonic :=
  [.imm, .add, .addc, .sub, .subb, .and, .or, .xor, .cmp, .shl, .srl, .sra, .mul, .addr, .not,
    .cadd, .csub, .stw, .sts, .stb, .stwInc, .stsInc, .stbInc, .ldw, .lds, .ldb, .ldwInc, .ldsInc,
    .ldbInc, .copr, .copw, .br, .addi, .cmpi, .limr, .jmp, .jmpe, .sextb, .sexts, .rspr, .wspr,
    .rusr, .wusr, .swi, .nop]

inductive CondCode
  | ne | eq | gt | ge | lt | le | ugt | uge | ult | ule | s | ns
  deriving DecidableEq, Repr

def CondCode.encoding : CondCode → BitVec 4
  | .ne => 1
  | .eq => 2
  | .gt => 3
  | .ge => 4
  | .lt => 5
  | .le => 6
  | .ugt => 7
  | .uge => 8
  | .ult => 9
  | .ule => 10
  | .s => 11
  | .ns => 12

/-! ## Instruction lines -/

/-- `ext_flags` as a suffix can set them. -/
inductive ExtFlags
  | none | immed | dreg
  deriving DecidableEq, Repr

/-- The suffix behind the dot: `c` with a condition name, then `i` or `d`. -/
structure Suffix where
  condition : Option CondCode
  flags : ExtFlags
  deriving DecidableEq

/-- An `expressionS` with its `X_add_number`, of which every reader keeps 32 bits at most. -/
inductive Expr
  | constant (xAddNumber : Word)
  | symbol (xAddNumber : Word)
  deriving DecidableEq

def Expr.xAddNumber : Expr → Word
  | .constant v | .symbol v => v

theorem sixteen_le_registers : 16 ≤ 32 := by decide

/-- The register literals of every module take this instance. -/
instance neZero_registers : NeZero 32 := ⟨by decide⟩

/-- An operand; `parse_reg` numbers `r0` to `r31` as written and the special registers from 16. -/
inductive Operand
  | reg (r : Fin 32)
  | imm (e : Expr)
  | mem (base : Fin 32) (disp : Option Expr)
  deriving DecidableEq

structure Line where
  mnemonic : Mnemonic
  suffix : Option Suffix
  operands : List Operand
  deriving DecidableEq

namespace Line

def cond (l : Line) : Option CondCode := l.suffix.bind Suffix.condition

def flags (l : Line) : ExtFlags := (l.suffix.map Suffix.flags).getD .none

def instType (l : Line) : InstType := l.mnemonic.entry.instType

end Line

/-! ## What is executed -/

/-- The operation the stages after decode carry out, as far as an instruction line can name it. -/
structure Executed where
  op : DecodedOpcode
  /-- Operation, carry and flags of an ALU instruction. -/
  alu : Option (AluOp × Bool × Bool)
  immediate : Bool
  memory : Option MemoryAccess
  left : Option RegAddress
  right : Option RegAddress
  dest : Option RegAddress
  sr : Option (BitVec 3)
  cop : Option (Bool × BitVec 2 × BitVec 4)
  condition : Condition
  deriving DecidableEq

/-- What the decode registers make the later stages do. -/
def executed (dr : DecodeRegs) : Executed where
  op := dr.decoded
  alu := if dr.decoded = .alu then some (dr.aluOp, dr.useCarry, dr.modifyFlags) else none
  immediate := dr.decoded = .alu ∧ dr.aluSource = .immed
  memory := if dr.memoryAccess then some dr.macc else none
  left := if dr.rd1 then some dr.sra1 else none
  right := if dr.rd2 then some dr.sra2 else none
  dest := if dr.regwe then some dr.dreg else none
  sr := if dr.sprwe ∨ dr.regwe ∧ dr.regSource = .spr then some dr.sr else none
  cop := if dr.copEn then some (dr.copWr, dr.copId, dr.copReg) else none
  condition := dr.conditionClause

def CondCode.condition : CondCode → Condition
  | .ne => .ne
  | .eq => .e
  | .gt => .g
  | .ge => .ge
  | .lt => .l
  | .le => .le
  | .ugt => .ug
  | .uge => .uge
  | .ult => .ul
  | .ule => .ule
  | .s => .s
  | .ns => .ns

def Executed.plain (op : DecodedOpcode) : Executed :=
  { op := op, alu := none, immediate := false, memory := none, left := none, right := none,
    dest := none, sr := none, cop := none, condition := .unconditional }

/-- An ALU instruction without suffix: `rb` and `ra` to `ra`. -/
def Executed.ofAlu (op : AluOp) (carry flags : Bool) (a b : RegAddress) : Executed :=
  { Executed.plain .alu with
    alu := some (op, carry, flags), left := some a, right := some b, dest := some a }

/-- A load or store of register `b` at the address in `a`. -/
def Executed.ofMemory (op : DecodedOpcode) (access : MemoryAccess) (a b : RegAddress) : Executed :=
  { Executed.plain op with memory := some access, left := some a, right := some b }

/-- What a mnemonic without suffix does to the registers `rb` and `ra`; a special register is
named in the place of `rb`, and so is a coprocessor register.  For `rusr`, `wusr`, `copw` and `jmpe`
no text of the repository says which registers they read and write: theirs are those of
`opdec.vhd`. -/
def Mnemonic.executes (priv : Bool) (copId : BitVec 2) (rb ra : BitVec 4) : Mnemonic → Executed :=
  let a := regaddress priv ra
  let b := regaddress priv rb
  fun
  | .imm => .plain .im
  | .add => .ofAlu .add false false a b
  | .addc => .ofAlu .add true false a b
  | .sub => .ofAlu .sub false false a b
  | .subb => .ofAlu .sub true false a b
  | .and => .ofAlu .and false false a b
  | .or => .ofAlu .or false false a b
  | .xor => .ofAlu .xor false false a b
  | .cmp => { Executed.ofAlu .sub false true a b with dest := none }
  | .shl => .ofAlu .shl false false a b
  | .srl => .ofAlu .srl false false a b
  | .sra => .ofAlu .sra false false a b
  | .mul => .ofAlu .mul false false a b
  | .addr => { Executed.ofAlu .add false false a b with immediate := true, left := some b }
  | .not => .ofAlu .not false false a b
  | .cadd => .ofAlu .add false true a b
  | .csub => .ofAlu .sub false true a b
  | .stw => .ofMemory .st .word a b
  | .sts => .ofMemory .st .hword a b
  | .stb => .ofMemory .st .byte a b
  | .stwInc => .ofMemory .st .wordPostinc a b
  | .stsInc => .ofMemory .st .hwordPostinc a b
  | .stbInc => .ofMemory .st .bytePostinc a b
  | .ldw => .ofMemory .ld .word a b
  | .lds => .ofMemory .ld .hword a b
  | .ldb => .ofMemory .ld .byte a b
  | .ldwInc => .ofMemory .ld .wordPostinc a b
  | .ldsInc => .ofMemory .ld .hwordPostinc a b
  | .ldbInc => .ofMemory .ld .bytePostinc a b
  | .copr => { Executed.plain .copr with cop := some (false, copId, rb), dest := some a }
  | .copw =>
      { Executed.plain .copw with cop := some (true, copId, rb), left := some a, dest := some a }
  | .br => { Executed.plain .br with dest := some a }
  | .addi => { Executed.plain .addi with left := some a, dest := some a }
  | .cmpi => { Executed.plain .cmpi with left := some a }
  | .limr => { Executed.plain .limr with left := some 0, dest := some a }
  | .jmp => { Executed.plain .jmp with left := some b, dest := some a }
  | .jmpe => .plain .jmpe
  | .sextb => { Executed.plain .sextb with left := some b, dest := some a }
  | .sexts => { Executed.plain .sexts with left := some b, dest := some a }
  | .rspr =>
      { Executed.plain .rspr with left := some a, dest := some a, sr := some (rb.setWidth 3) }
  | .wspr => { Executed.plain .wspr with left := some a, sr := some (rb.setWidth 3) }
  | .rusr =>
      { Executed.plain .rdusr with
        left := some (regaddress false ra), right := some b, dest := some a }
  | .wusr =>
      { Executed.plain .wrusr with
        left := some a, right := some b, dest := some (regaddress false ra) }
  | .swi => .plain .swi
  | .nop => { Executed.plain .sextb with left := some b, dest := some a }

/-- An ALU instruction takes the immediate for its second operand, and `b` for its first. -/
def Executed.withImmediate (b : RegAddress) (x : Executed) : Executed :=
  if x.op = .alu then { x with immediate := true, left := some b } else x

/-- The result, if there is one, goes to `d`. -/
def Executed.withDest (d : RegAddress) (x : Executed) : Executed :=
  { x with dest := x.dest.map fun _ => d }

def Executed.withCondition (c : Condition) (x : Executed) : Executed := { x with condition := c }

def gpr (r : Fin 32) : Option (BitVec 4) :=
  if r.val < 16 then some (BitVec.ofNat 4 r.val) else none

def spr (r : Fin 32) : Option (BitVec 4) :=
  if 16 ≤ r.val ∧ r.val < 24 then some (BitVec.ofNat 4 (r.val - 16)) else none

structure Fields where
  copId : BitVec 2
  rb : BitVec 4
  ra : BitVec 4
  rest : List Operand

namespace Line

def fields (l : Line) : Option Fields :=
  match l.instType, l.operands with
  | .r1R2, .reg b :: .reg a :: rest => do return ⟨0, ← gpr b, ← gpr a, rest⟩
  | .memLoad, .mem a _ :: .reg b :: rest => do return ⟨0, ← gpr b, ← gpr a, rest⟩
  | .memStore, .reg b :: .mem a _ :: rest => do return ⟨0, ← gpr b, ← gpr a, rest⟩
  | .imm8R, .imm _ :: .reg a :: rest => do return ⟨0, 0, ← gpr a, rest⟩
  | .cop, .imm (.constant id) :: .imm (.constant creg) :: .reg a :: rest => do
      guard (id.toNat < 4 ∧ creg.toNat < 16)
      return ⟨id.setWidth 2, creg.setWidth 4, ← gpr a, rest⟩
  | .rspr, .reg s :: .reg a :: rest => do return ⟨0, ← spr s, ← gpr a, rest⟩
  | .wspr, .reg a :: .reg s :: rest => do return ⟨0, ← spr s, ← gpr a, rest⟩
  | .noargs, rest => some ⟨0, 0, 0, rest⟩
  | .imm, .imm _ :: rest => some ⟨0, 0, 0, rest⟩
  | _, _ => none

end Line

def third : List Operand → Option (BitVec 4)
  | .reg d :: _ => gpr d
  | _ => none

/-- What `i` or `d` changes. -/
def ExtFlags.apply (priv : Bool) (f : Fields) (x : Executed) : ExtFlags → Option Executed
  | .none => some x
  | .immed => some (x.withImmediate (regaddress priv f.rb))
  -- an instruction without a result has no use for the third register
  | .dreg =>
      if x.dest.isNone then some x
      else (third f.rest).map fun d => x.withDest (regaddress priv d)

namespace Line

def named (l : Line) : Condition := (l.cond.map CondCode.condition).getD .unconditional

/-- What the line asks for: its mnemonic on its registers, changed as the suffix says. -/
def executes (priv : Bool) (l : Line) : Option Executed := do
  let f ← l.fields
  let x ← l.flags.apply priv f (l.mnemonic.executes priv f.copId f.rb f.ra)
  return x.withCondition l.named

end Line

end Xtc.Tools
