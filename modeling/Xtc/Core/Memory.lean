import Xtc.Core.Fetchdata

/-!
# Memory — the memory stage `memory.vhd` and the write port `writeback.vhd`

A request is queued in every clock in which the bus does not hold the previous one back.  What the
response needs travels with the request as its tag: the register, whether it is a load, and how the
bytes of the word are to be moved.  Tag bits the source leaves `'X'` are zero.
-/

namespace Xtc

/-- What the memory stage reads of `execute_output_type`. -/
structure MemoryAccessInput where
  macc : MemoryAccess
  dataAddress : Word
  dataWrite : Word
  dataWriteenable : Bool
  dataAccess : Bool
  mwreg : RegAddress
  sprwe : Bool
  npc : Word
  clrreg : Bool

/-- What the data cache drives towards the memory stage. -/
structure BusInput where
  ack : Bool
  dat : Word
  tag : Word
  err : Bool
  stall : Bool

namespace Memory

def isByte : MemoryAccess → Bool
  | .byte | .bytePostinc => true
  | _ => false

def isHword : MemoryAccess → Bool
  | .hword | .hwordPostinc => true
  | _ => false

section

variable (e : MemoryAccessInput) (b : BusInput) (mr : MemoryRegs)

/-- `wdata`: the stored bytes in their lane. -/
def wdata : Word :=
  if isByte e.macc then
    match (e.dataAddress.extractLsb 1 0).toNat with
    | 3 => 0#24 ++ e.dataWrite.extractLsb 7 0
    | 2 => 0#16 ++ e.dataWrite.extractLsb 7 0 ++ 0#8
    | 1 => 0#8 ++ e.dataWrite.extractLsb 7 0 ++ 0#16
    | _ => e.dataWrite.extractLsb 7 0 ++ 0#24
  else if isHword e.macc then
    if e.dataAddress.getLsbD 1 then 0#16 ++ e.dataWrite.extractLsb 15 0
    else e.dataWrite.extractLsb 15 0 ++ 0#16
  else e.dataWrite

def wmask : BitVec 4 :=
  if isByte e.macc then
    match (e.dataAddress.extractLsb 1 0).toNat with
    | 3 => 0b0001
    | 2 => 0b0010
    | 1 => 0b0100
    | _ => 0b1000
  else if isHword e.macc then (if e.dataAddress.getLsbD 1 then 0b0011 else 0b1100)
  else 0b1111

/-- How a load moves the bytes of the word it gets. -/
def mrsel : BitVec 5 :=
  if isByte e.macc then
    match (e.dataAddress.extractLsb 1 0).toNat with
    | 3 => 0b11000
    | 2 => 0b11001
    | 1 => 0b11010
    | _ => 0b11011
  else if isHword e.macc then (if e.dataAddress.getLsbD 1 then 0b10000 else 0b10110)
  else 0b00000

def tag : Word :=
  0#21 ++ e.mwreg.extractLsb 4 4 ++ mrsel e ++ BitVec.ofBool (!e.dataWriteenable) ++
    e.mwreg.extractLsb 3 0

/-- `busy`: the bus holds the previous request back. -/
def busy : Bool := b.stall && mr.wbStb

/-- `mdata`: the loaded bytes moved as the tag says. -/
def mdata : Word :=
  let low : BitVec 8 :=
    match (b.tag.extractLsb 6 5).toNat with
    | 0 => b.dat.extractLsb 7 0
    | 1 => b.dat.extractLsb 15 8
    | 2 => b.dat.extractLsb 23 16
    | _ => b.dat.extractLsb 31 24
  let mid : BitVec 8 :=
    match (b.tag.extractLsb 8 7).toNat with
    | 0 => b.dat.extractLsb 15 8
    | 1 => b.dat.extractLsb 31 24
    | _ => 0
  let high : BitVec 16 := if b.tag.getLsbD 9 then 0 else b.dat.extractLsb 31 16
  high ++ mid ++ low

def tagReg (t : Word) : RegAddress := t.extractLsb 10 10 ++ t.extractLsb 3 0

def tagLoad (t : Word) : Bool := t.getLsbD 4

/-- A load that will not be made gives its register back through the load port. -/
def clears : Bool := !busy b mr && e.clrreg

def mregwe : Bool := (b.ack && tagLoad b.tag) || clears e b mr

def mreg : RegAddress := if clears e b mr then e.mwreg else tagReg b.tag

/-- The memory registers after one clock.  `LOWPROTECTENABLE` is off. -/
def next : MemoryRegs :=
  if busy b mr then { mr with fault := b.err }
  else
    { dreg := e.mwreg
      regwe := !e.sprwe && !e.dataWriteenable
      sprwe := e.sprwe && !e.dataWriteenable
      macc := e.macc
      wbDat := wdata e
      wbAdr := e.dataAddress
      wbWe := e.dataWriteenable
      wbCyc := e.dataAccess
      wbStb := e.dataAccess
      wbTago := tag e
      wbSel := wmask e
      fault := b.err
      pc := e.npc
      faddr := mr.faddr }

end

theorem tagReg_tag (e : MemoryAccessInput) : tagReg (tag e) = e.mwreg := by
  apply BitVec.eq_of_getLsbD_eq
  intro i hi
  simp only [tagReg, tag, BitVec.getLsbD_append, BitVec.getLsbD_extractLsb]
  interval_cases i <;> simp

theorem tagLoad_tag (e : MemoryAccessInput) : tagLoad (tag e) = !e.dataWriteenable := by
  simp only [tagLoad, tag]
  simp only [BitVec.getLsbD_append]
  simp

theorem next_wbStb (e : MemoryAccessInput) (b : BusInput) (mr : MemoryRegs) :
    (next e b mr).wbStb = if busy b mr then mr.wbStb else e.dataAccess := by
  unfold next
  split <;> rfl

theorem next_wbTago (e : MemoryAccessInput) (b : BusInput) (mr : MemoryRegs) :
    (next e b mr).wbTago = if busy b mr then mr.wbTago else tag e := by
  unfold next
  split <;> rfl

structure Reset (mr : MemoryRegs) : Prop where
  cyc : mr.wbCyc = false
  stb : mr.wbStb = false
  fault : mr.fault = false

end Memory

namespace Writeback

/-- The result an instruction left in the execute registers. -/
def result (er : ExecuteRegs) (cop : Word) : Word :=
  match er.regSource with
  | .alu => er.alur
  | .spr => er.sprval
  | .pcnext => er.npc
  | .cop => cop

/-- The write port: loads come first. -/
def port (mregwe : Bool) (mreg : RegAddress) (mdata : Word) (er : ExecuteRegs) (cop : Word) :
    RegWrite :=
  if mregwe then { we := true, addr := mreg, data := mdata }
  else { we := er.regwe, addr := er.dreg, data := result er cop }

/-- `busy`: the execute result has to wait for a load. -/
def busy (mregwe : Bool) (er : ExecuteRegs) : Bool := mregwe && er.regwe

end Writeback

end Xtc
