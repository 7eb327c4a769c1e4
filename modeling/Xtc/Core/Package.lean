import Mathlib.Tactic

/-!
# Package — the records and enumerations of `xtcpkg.vhd`

One type for each record that travels between the pipeline stages.  A `std_logic` that the design
only ever drives with `'0'` or `'1'` is a `Bool`; `StdLogic` keeps the third value for the one
signal whose `'X'` is compared against both levels (the outcome of a condition clause).
-/

namespace Xtc

abbrev Word := BitVec 32
abbrev Opcode := BitVec 16
/-- `regaddress_type`: four register bits below the supervisor bit. -/
abbrev RegAddress := BitVec 5

/-- `std_logic` where an unknown level is told apart from `'0'` and from `'1'`. -/
inductive StdLogic
  | zero
  | one
  | unknown
  deriving DecidableEq, Repr

def StdLogic.ofBool : Bool → StdLogic
  | true => .one
  | false => .zero

inductive AluSource
  | reg
  | immed
  deriving DecidableEq, Repr

inductive AluOp
  | add | addc | sub | subb | and | or | xor | addri | cmp
  | sra | srl | shl | not | mul | sextb | sexts
  deriving DecidableEq, Repr

inductive DecodedOpcode
  | nop | im | limr | addi | addri | cmpi | alu | st | ld
  | br | jmp | jmpe | sextb | sexts | copr | copw | rspr | wspr
  | rdusr | wrusr | swi | abort
  deriving DecidableEq, Repr

inductive MemoryAccess
  | word | byte | hword | spr
  | wordPostinc | bytePostinc | hwordPostinc | sprPostinc
  deriving DecidableEq, Repr

inductive LoadImm
  | loadNone | load0 | load8 | load16 | load24
  deriving DecidableEq, Repr

inductive RegSource
  | alu | spr | pcnext | cop
  deriving DecidableEq, Repr

/-- The `JUMP_*` constants; `none` is the `"XX"` of an instruction that does not jump. -/
inductive JumpMode
  | none | riPcrel | iPcrel | riAbs
  deriving DecidableEq, Repr

inductive Condition
  | unconditional | ne | e | g | ge | l | le | ug | uge | ul | ule | s | ns
  deriving DecidableEq, Repr

inductive FetchState
  | running | jumping | aligning
  deriving DecidableEq, Repr

/-- `opdec_type`. -/
structure Opdec where
  modifyGpr : Bool
  modifySpr : Bool
  aluOp : AluOp
  opcode : Opcode
  sreg1 : RegAddress
  sreg2 : RegAddress
  dreg : RegAddress
  modifyFlags : Bool
  macc : MemoryAccess
  memoryAccess : Bool
  memoryWrite : Bool
  rd1 : Bool
  rd2 : Bool
  regSource : RegSource
  condition : Condition
  enableAlu : Bool
  imflag : Bool
  blocks : Bool
  ismult : Bool
  extended : Bool
  aluSource : AluSource
  useCarry : Bool
  imm8l : BitVec 8
  imm8h : BitVec 8
  imm24 : BitVec 24
  sr : BitVec 3
  loadimm : LoadImm
  op : DecodedOpcode
  jump : JumpMode
  isJump : Bool
  exceptReturn : Bool
  copEn : Bool
  copWr : Bool
  copId : BitVec 2
  copReg : BitVec 4
  priv : Bool

/-- `fetch_regs_type`. -/
structure FetchRegs where
  pc : Word
  fpc : Word
  state : FetchState
  unaligned : Bool
  unalignedJump : Bool
  invertReadout : Bool
  seq : Bool
  priv : Bool
  qopc : Opcode

/-- `fetch_output_type`. -/
structure FetchOutput where
  r : FetchRegs
  opcode : BitVec 32
  valid : Bool
  inverted : Bool
  npc : Word

/-- `decode_regs_type`. -/
structure DecodeRegs where
  decoded : DecodedOpcode
  valid : Bool
  rd1 : Bool
  rd2 : Bool
  sra1 : RegAddress
  sra2 : RegAddress
  opcode : Opcode
  opcodeLow : Opcode
  dual : Bool
  regSource : RegSource
  regwe : Bool
  dreg : RegAddress
  sprwe : Bool
  blocks : Bool
  modifyFlags : Bool
  aluOp : AluOp
  useCarry : Bool
  enableAlu : Bool
  memoryWrite : Bool
  memoryAccess : Bool
  macc : MemoryAccess
  wbIsDataAddress : Bool
  npc : Word
  fpc : Word
  pc : Word
  tpc : Word
  conditionClause : Condition
  aluSource : AluSource
  ismult : Bool
  isJump : Bool
  jump : JumpMode
  exceptReturn : Bool
  imreg : Word
  imflag : Bool
  sr : BitVec 3
  copEn : Bool
  copWr : Bool
  copId : BitVec 2
  copReg : BitVec 4
  priv : Bool

/-- `fetchdata_regs_type`. -/
structure FetchdataRegs where
  drq : DecodeRegs
  rd1q : Bool
  rd2q : Bool
  alu : Bool
  waiting : Bool
  alufwa : Bool
  alufwb : Bool
  hold : Bool
  dreg : RegAddress

/-- `fetchdata_output_type`. -/
structure FetchdataOutput where
  r : FetchdataRegs
  rr1 : Word
  rr2 : Word
  valid : Bool
  alufwa : Bool
  alufwb : Bool

/-- `execute_regs_type`. -/
structure ExecuteRegs where
  valid : Bool
  wbIsDataAddress : Bool
  psr : Word
  spsr : Word
  alur : Word
  dreg : RegAddress
  regwe : Bool
  regSource : RegSource
  jump : Bool
  jumppriv : Bool
  jumpaddr : Word
  scratch : Word
  y : Word
  npc : Word
  sprval : Word
  trapq : Bool
  innmi : Bool

/-- `memory_regs_type`. -/
structure MemoryRegs where
  dreg : RegAddress
  regwe : Bool
  sprwe : Bool
  macc : MemoryAccess
  wbDat : Word
  wbAdr : Word
  wbWe : Bool
  wbCyc : Bool
  wbStb : Bool
  wbTago : Word
  wbSel : BitVec 4
  fault : Bool
  pc : Word
  faddr : Word

/-! ## Words with byte enables -/

/-- The bits of the bytes that are enabled. -/
def byteMask (m : BitVec 4) : Word :=
  (BitVec.ofBool (m.getLsbD 3)).replicate 8 ++ (BitVec.ofBool (m.getLsbD 2)).replicate 8 ++
    (BitVec.ofBool (m.getLsbD 1)).replicate 8 ++ (BitVec.ofBool (m.getLsbD 0)).replicate 8

def merge (m : BitVec 4) (d w : Word) : Word := d &&& byteMask m ||| w &&& ~~~ byteMask m

theorem merge_merge (m : BitVec 4) (d w : Word) : merge m d (merge m d w) = merge m d w := by
  apply BitVec.eq_of_getLsbD_eq
  intro k hk
  simp only [merge, BitVec.getLsbD_or, BitVec.getLsbD_and, BitVec.getLsbD_not]
  cases (byteMask m).getLsbD k <;> simp [hk]

theorem merge_full (d w : Word) : merge 15 d w = d := by
  have hmask : byteMask 15 = BitVec.allOnes 32 := by decide
  rw [merge, hmask, BitVec.and_allOnes, BitVec.not_allOnes, BitVec.and_zero, BitVec.or_zero]

end Xtc
