import Xtc.Core.Package

/-!
# Cpu — the guest of the simulator `softsim` and its memory

`cpu.c`, `memory.c` and `io.c`.  `cpu->memory` is a block of `memsize` bytes of the host; the model
gives every index a byte, and those from `memsize` on belong to something else.  A simulation logs
the bytes of `cpu->memory` it touches and the addresses the guest asks for.
-/

namespace Xtc

namespace Softsim

/-- What `initialize` allocates. -/
def memsize : Nat := 16384

structure Cpu where
  memory : Word → BitVec 8
  regs : BitVec 4 → Word
  npc : Word
  -- `v[0]` is `pc` and `v[1]` is `br`
  spr : BitVec 3 → Word
  zero : Bool
  carry : Bool
  sign : Bool
  imm : Word
  imflag : Bool
  -- all ones if there is no branch
  branchNext : Word
  resetImmed : Bool

def Cpu.pc (cpu : Cpu) : Word := cpu.spr 0

def Cpu.setReg (cpu : Cpu) (r : BitVec 4) (w : Word) : Cpu :=
  { cpu with regs := Function.update cpu.regs r w }

def Cpu.setSpr (cpu : Cpu) (k : BitVec 3) (w : Word) : Cpu :=
  { cpu with spr := Function.update cpu.spr k w }

/-- What `initialize` makes of the block that `malloc` returns. -/
def Cpu.initial (heap : Cpu) : Cpu :=
  { heap with
    memory := fun i => if i.toNat < memsize then 0 else heap.memory i
    spr := fun _ => 0
    imm := 0
    imflag := false
    branchNext := -1
    regs := fun _ => 0 }

def Cpu.load (image : List (BitVec 8)) (cpu : Cpu) : Cpu :=
  { cpu with memory := fun i => (image.take memsize).getD i.toNat (cpu.memory i) }

inductive Width
  | byte | short | word
  deriving DecidableEq, Repr

def Width.bytes : Width → Nat
  | .byte => 1
  | .short => 2
  | .word => 4

structure Access where
  width : Width
  addr : Word
  deriving DecidableEq

structure Machine where
  cpu : Cpu
  touched : List Word
  accesses : List Access
  -- what the guest has written to its serial port
  output : List (BitVec 8)

inductive Abort
  | assertion
  | unmapped (addr : Word)
  | invalidAccess (addr : Word)
  | invalidOpcode (op : BitVec 16) (pc : Word)
  | unhandledOpcode (op : BitVec 16) (pc : Word)
  deriving DecidableEq

abbrev Sim := EStateM Abort Machine

def getCpu : Sim Cpu := fun m => .ok m.cpu m

def modifyCpu (f : Cpu → Cpu) : Sim Unit := fun m => .ok () { m with cpu := f m.cpu }

def touch (i : Word) : Sim Unit := fun m => .ok () { m with touched := m.touched ++ [i] }

def request (a : Access) : Sim Unit := fun m => .ok () { m with accesses := m.accesses ++ [a] }

def putchar (c : BitVec 8) : Sim Unit := fun m => .ok () { m with output := m.output ++ [c] }

def check (b : Bool) : Sim Unit := fun m => if b then .ok () m else .error .assertion m

/-! ## Bytes of `cpu->memory` -/

def readByte (i : Word) : Sim (BitVec 8) := do
  touch i
  let cpu ← getCpu
  return cpu.memory i

def storeByte (i : Word) (b : BitVec 8) : Sim Unit := do
  touch i
  modifyCpu fun cpu => { cpu with memory := Function.update cpu.memory i b }

def readMemU32 (i : Word) : Sim Word := do
  let b₃ ← readByte i
  let b₂ ← readByte (i + 1)
  let b₁ ← readByte (i + 2)
  let b₀ ← readByte (i + 3)
  return b₃ ++ b₂ ++ b₁ ++ b₀

def readMemU16 (i : Word) : Sim Word := do
  let b₁ ← readByte i
  let b₀ ← readByte (i + 1)
  return (b₁ ++ b₀).setWidth 32

def readMemU8 (i : Word) : Sim Word := do
  let b ← readByte i
  return b.setWidth 32

def storeMemU32 (i val : Word) : Sim Unit := do
  storeByte i (val.extractLsb' 24 8)
  storeByte (i + 1) (val.extractLsb' 16 8)
  storeByte (i + 2) (val.extractLsb' 8 8)
  storeByte (i + 3) (val.extractLsb' 0 8)

def storeMemU16 (i val : Word) : Sim Unit := do
  storeByte i (val.extractLsb' 8 8)
  storeByte (i + 1) (val.extractLsb' 0 8)

def storeMemU8 (i val : Word) : Sim Unit := storeByte i (val.extractLsb' 0 8)

/-! ## Input and output -/

def isIo (addr : Word) : Bool := addr &&& 0x80000000 != 0

def handleStoreIo (addr value : Word) : Sim Unit :=
  if addr &&& 0x7ffffff0 = 0 then
    if addr &&& 0xf = 0 then putchar (value.extractLsb' 0 8) else pure ()
  else throw (.invalidAccess addr)

def handleReadIo (_addr : Word) : Sim Word := pure 0

/-! ## Loads and stores -/

def realaddr (regAddr : BitVec 4) (offset : Word) : Sim Word := do
  let cpu ← getCpu
  return cpu.regs regAddr + offset

def handleStoreVal (regAddr : BitVec 4) (val offset : Word) : Sim Unit := do
  let addr ← realaddr regAddr offset
  request ⟨.word, addr⟩
  check (addr &&& 3 == 0)
  let addr := addr &&& ~~~3
  if addr.toNat < memsize then storeMemU32 addr val
  else if isIo addr then handleStoreIo addr val
  else throw (.unmapped addr)

def handleStore (regAddr regVal : BitVec 4) (offset : Word) : Sim Unit := do
  let cpu ← getCpu
  handleStoreVal regAddr (cpu.regs regVal) offset

/-- The two narrow stores abort on an address of the input and output, and pass over one that is not
mapped at all. -/
def handleStoreShort (regAddr regVal : BitVec 4) (offset : Word) : Sim Unit := do
  let cpu ← getCpu
  let addr ← realaddr regAddr offset
  request ⟨.short, addr⟩
  check (addr &&& 1 == 0)
  let addr := addr &&& ~~~1
  if addr.toNat < memsize then storeMemU16 addr (cpu.regs regVal)
  else if isIo addr then throw (.unmapped addr)
  else pure ()

def handleStoreByte (regAddr regVal : BitVec 4) (offset : Word) : Sim Unit := do
  let cpu ← getCpu
  let addr ← realaddr regAddr offset
  request ⟨.byte, addr⟩
  if addr.toNat < memsize then storeMemU8 addr (cpu.regs regVal)
  else if isIo addr then throw (.unmapped addr)
  else pure ()

def handleRead (regAddr : BitVec 4) (offset : Word) : Sim Word := do
  let addr ← realaddr regAddr offset
  request ⟨.word, addr⟩
  check (addr &&& 3 == 0)
  let addr := addr &&& ~~~3
  if addr.toNat < memsize then readMemU32 addr
  else if isIo addr then handleReadIo addr
  else throw (.unmapped addr)

/-- The two narrow loads abort likewise, with 0 as their word. -/
def handleReadShort (regAddr : BitVec 4) (offset : Word) : Sim Word := do
  let addr ← realaddr regAddr offset
  request ⟨.short, addr⟩
  check (addr &&& 1 == 0)
  let addr := addr &&& ~~~1
  if addr.toNat < memsize then readMemU16 addr
  else if isIo addr then throw (.unmapped addr)
  else pure 0

def handleReadByte (regAddr : BitVec 4) (offset : Word) : Sim Word := do
  let addr ← realaddr regAddr offset
  request ⟨.byte, addr⟩
  if addr.toNat < memsize then readMemU8 addr
  else if isIo addr then throw (.unmapped addr)
  else pure 0

end Softsim

end Xtc
