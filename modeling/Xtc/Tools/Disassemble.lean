import Xtc.Tools.Assembled

/-!
# Disassemble — `print_insn_xtc` of `xtc-dis.c`

The text printed for an instruction, as the pieces `print_func` is called with, and the line that
a reader of the text sees.  `unsigned long` is 64 bits wide: the extension halfword is shifted into
place as an `int`, so its top bit fills the upper half.
-/

namespace Xtc.Tools

open Xtc.Linker

/-! ## Reading -/

def readInsn (hi lo : Opcode) : BitVec 64 :=
  if hi.getLsbD 15 then hi.setWidth 64 ||| (lo ++ 0#16).signExtend 64 else hi.setWidth 64

/-- The test of the linear search. -/
def Mnemonic.fits (inst : BitVec 64) (m : Mnemonic) : Bool :=
  m.entry.bitSequence.setWidth 64 == inst &&& m.entry.opcodeMask.setWidth 64

def findOpcode (inst : BitVec 64) : Option Mnemonic := opcodes.find? (Mnemonic.fits inst)

def conditionCodes : List CondCode :=
  [.ne, .eq, .gt, .ge, .lt, .le, .ugt, .uge, .ult, .ule, .s, .ns]

def getcc (val : BitVec 4) : Option CondCode := conditionCodes.find? fun c => c.encoding == val

def getField (inst mask : BitVec 64) (low : Nat) : Nat := ((inst &&& mask) >>> low).toNat

/-- The names `get_field_spr` prints. -/
inductive SprName
  | y | psr | spsr | tr | tpc | sr0 | error
  deriving DecidableEq, Repr

def getFieldSpr (inst : BitVec 64) : SprName :=
  match getField inst 0x70 4 with
  | 0 => .y
  | 1 => .psr
  | 2 => .spsr
  | 3 => .tr
  | 4 => .tpc
  | 5 => .sr0
  | _ => .error

/-- `(short)` of a field, as `%d` prints it. -/
def getFieldShort (inst mask : BitVec 64) (low : Nat) : Int :=
  (((inst &&& mask) >>> low).setWidth 16).toInt

/-! ## Printing -/

inductive PrintedOperand
  | reg (r : Nat)
  | spr (s : SprName)
  | number (v : Int)
  | mem (base : Nat) (disp : Int)
  deriving DecidableEq

structure Printed where
  mnemonic : Mnemonic
  suffix : Option Suffix
  operands : List PrintedOperand
  deriving DecidableEq

/-- The letter of the extension, from the top three bits. -/
def printedFlags (inst : BitVec 64) : ExtFlags :=
  match (inst >>> 29).toNat with
  | 1 => .dreg
  | 2 => .immed
  | _ => .none

def printedSuffix (inst : BitVec 64) (m : Mnemonic) : Option Suffix :=
  if inst &&& 0x8000 ≠ 0 ∧ m.entry.ext ≠ .isExt then
    some ⟨getcc ((inst >>> 24).setWidth 4), printedFlags inst⟩
  else none

/-- `switch (op->inst_type)`; an immediate of zero is not printed. -/
def printedOperands (inst : BitVec 64) (m : Mnemonic) : List PrintedOperand :=
  let flags := ((printedSuffix inst m).map Suffix.flags).getD .none
  let r1 := getField inst 0x0F 0
  let r2 := getField inst 0xF0 4
  let immval : Int := if flags = .immed then getField inst 0xFF0000 16 else 0
  match m.entry.instType with
  | .wspr => [.reg r1, .spr (getFieldSpr inst)]
  | .rspr => [.spr (getFieldSpr inst), .reg r1]
  | .r1R2 =>
      if flags = .dreg then [.reg r2, .reg r1, .reg (getField inst 0xF0000 16)]
      else if immval ≠ 0 then [.reg r2, .reg r1, .number immval]
      else [.reg r2, .reg r1]
  | .memLoad => [.mem r1 immval, .reg r2]
  | .memStore => [.reg r2, .mem r1 immval]
  | .imm => [.number (getFieldShort inst 0xFFF 0)]
  | .imm8R => [.number (getFieldShort inst 0xFF0 4), .reg r1]
  | .noargs => []
  | .cop => [.number ((inst >>> 9) &&& 0x3).toNat, .number ((inst >>> 7) &&& 0x7).toNat, .reg r1]

/-- What is printed once the entry is found. -/
def printedFor (inst : BitVec 64) (m : Mnemonic) : Printed :=
  ⟨m, printedSuffix inst m, printedOperands inst m⟩

/-- The line printed for an instruction; without an entry it is a `.short`. -/
def printInsnXtc (hi lo : Opcode) : Option Printed :=
  let inst := readInsn hi lo
  (findOpcode inst).map (printedFor inst)

/-! ## The text -/

def Mnemonic.name : Mnemonic → String
  | .imm => "imm" | .add => "add" | .addc => "addc" | .sub => "sub" | .subb => "subb"
  | .and => "and" | .or => "or" | .xor => "xor" | .cmp => "cmp" | .shl => "shl" | .srl => "srl"
  | .sra => "sra" | .mul => "mul" | .addr => "addr" | .not => "not" | .cadd => "cadd"
  | .csub => "csub" | .stw => "stw" | .sts => "sts" | .stb => "stb" | .stwInc => "stw+"
  | .stsInc => "sts+" | .stbInc => "stb+" | .ldw => "ldw" | .lds => "lds" | .ldb => "ldb"
  | .ldwInc => "ldw+" | .ldsInc => "lds+" | .ldbInc => "ldb+" | .copr => "copr" | .copw => "copw"
  | .br => "br" | .addi => "addi" | .cmpi => "cmpi" | .limr => "limr" | .jmp => "jmp"
  | .jmpe => "jmpe" | .sextb => "sextb" | .sexts => "sexts" | .rspr => "rspr" | .wspr => "wspr"
  | .rusr => "rusr" | .wusr => "wusr" | .swi => "swi" | .nop => "nop"

def CondCode.name : CondCode → String
  | .ne => "ne" | .eq => "eq" | .gt => "gt" | .ge => "ge" | .lt => "lt" | .le => "le"
  | .ugt => "ugt" | .uge => "uge" | .ult => "ult" | .ule => "ule" | .s => "s" | .ns => "ns"

def SprName.text : SprName → String
  | .y => "y" | .psr => "psr" | .spsr => "spsr" | .tr => "tr" | .tpc => "tpc" | .sr0 => "sr0"
  | .error => "<error>"

def PrintedOperand.text : PrintedOperand → String
  | .reg r => "r" ++ toString r
  | .spr s => s.text
  | .number v => toString v
  | .mem base disp =>
      if disp = 0 then "(r" ++ toString base ++ ")"
      else "(r" ++ toString base ++ " + " ++ toString disp ++ ")"

def Suffix.text (s : Suffix) : String :=
  "." ++ (s.condition.map fun c => "c" ++ c.name).getD "" ++
    match s.flags with
    | .dreg => "d"
    | .immed => "i"
    | .none => ""

def Printed.text (p : Printed) : String :=
  p.mnemonic.name ++ (p.suffix.map Suffix.text).getD "" ++
    if p.operands = [] then "" else "\t" ++ ", ".intercalate (p.operands.map PrintedOperand.text)

/-! ## What the text states -/

/-- The register a name stands for, numbered as the assembler numbers it. -/
def SprName.number : SprName → Option (Fin 32)
  | .y => some 16
  | .psr => some 17
  | .spsr => some 18
  | .tr => some 19
  | .tpc => some 20
  | .sr0 => some 21
  | .error => none

def PrintedOperand.operand : PrintedOperand → Option Operand
  | .reg r => if h : r < 32 then some (.reg ⟨r, h⟩) else none
  | .spr s => s.number.map .reg
  | .number v => some (.imm (.constant (BitVec.ofInt 32 v)))
  | .mem base disp =>
      if h : base < 32 then
        some (.mem ⟨base, h⟩ (if disp = 0 then none else some (.constant (BitVec.ofInt 32 disp))))
      else none

namespace Printed

/-- The text as an instruction line, if every operand is one. -/
def line (p : Printed) : Option Line :=
  (p.operands.mapM PrintedOperand.operand).map fun ops => ⟨p.mnemonic, p.suffix, ops⟩

/-- The number printed as the immediate; none is printed for zero. -/
def immediate (p : Printed) : Int :=
  match p.mnemonic.entry.instType, p.operands with
  | .imm, .number v :: _ => v
  | .imm8R, .number v :: _ => v
  | .r1R2, [_, _, .number v] => v
  | .memLoad, .mem _ v :: _ => v
  | .memStore, [_, .mem _ v] => v
  | _, _ => 0

/-- The text states the operation, registers and condition that the decode registers hold, and
the immediate. -/
def States (p : Printed) (priv : Bool) (dr : DecodeRegs) : Prop :=
  p.line.bind (Line.executes priv) = some (executed dr) ∧ p.immediate = dr.imreg.toInt

end Printed

end Xtc.Tools
