import Xtc.Core.Decode
import Xtc.Core.Execute
import Xtc.Core.Memory

/-!
# Backend — decode to writeback, as `xtc.vhd` wires them

Everything behind the fetch unit: decode, operand fetch, the load scoreboard `busycheck`, execute,
memory, the write port and the register bank.  The bus behind the memory stage takes requests and
answers them in order; when it stalls, when it answers and what it returns are inputs.
-/

namespace Xtc

/-- The inputs of a clock: the fetched instruction, the bus schedule, interrupts, coprocessor,
multiplier, trap addresses and the levels the source leaves undriven. -/
structure BackendInput where
  fui : FetchOutput
  busStall : Bool
  busAck : Bool
  busDat : Word
  int : Bool
  nmi : Bool
  copData : Word
  copValid : Bool
  copFault : Bool
  trapbase : Word
  trappc : Word
  multValid : Bool
  multR : Word
  multY : Word
  xAlu : Word
  xOvf : Bool
  xJumpaddr : Word
  xSprval : Word

/-- The registers behind the fetch unit, and the tags of the requests the bus has taken. -/
structure Backend where
  dr : DecodeRegs
  fdr : FetchdataRegs
  rr1 : Word
  rr2 : Word
  ram : RegAddress → Word
  er : ExecuteRegs
  mr : MemoryRegs
  dirty : Bool
  dirtyReg : RegAddress
  bus : List Word

namespace Backend

section Signals

variable (i : BackendInput) (s : Backend)

def fduo : FetchdataOutput where
  r := s.fdr
  rr1 := s.rr1
  rr2 := s.rr2
  valid := s.fdr.drq.valid
  alufwa := s.fdr.alufwa
  alufwb := s.fdr.alufwb

/-- What the bus drives: it answers only a request it has taken, and the oldest first.  The data
cache never raises `err`. -/
def busIn : BusInput where
  ack := i.busAck && !s.bus.isEmpty
  dat := i.busDat
  tag := s.bus.headD 0
  err := false
  stall := i.busStall

def executeIn (wbBusy : Bool) : ExecuteInput where
  fdui := fduo s
  memBusy := Memory.busy (busIn i s) s.mr
  wbBusy := wbBusy
  int := i.int
  nmi := i.nmi
  memFault := s.mr.fault
  copData := i.copData
  copValid := i.copValid
  copFault := i.copFault
  trapbase := i.trapbase
  trappc := i.trappc
  multValid := i.multValid
  multR := i.multR
  multY := i.multY
  xAlu := i.xAlu
  xOvf := i.xOvf
  xJumpaddr := i.xJumpaddr
  xSprval := i.xSprval

/-- The outputs of execute that the memory stage reads. -/
def accessOf (e : ExecuteInput) (er : ExecuteRegs) : MemoryAccessInput where
  macc := (Execute.drq e).macc
  dataAddress := Execute.regAddImmed e er
  dataWrite := Execute.rhs e er
  dataWriteenable := (Execute.drq e).memoryWrite
  dataAccess := Execute.dataAccess e er
  mwreg := (Execute.drq e).sra2
  sprwe := Execute.memSprwe e er
  npc := (Execute.drq e).fpc
  clrreg := Execute.clrreg e er

/-- Nothing the memory stage reads depends on `wb_busy`. -/
def access : MemoryAccessInput := accessOf (executeIn i s false) s.er

def mregwe : Bool := Memory.mregwe (access i s) (busIn i s) s.mr

def mreg : RegAddress := Memory.mreg (access i s) (busIn i s) s.mr

def mdata : Word := Memory.mdata (busIn i s)

def wbBusy : Bool := Writeback.busy (mregwe i s) s.er

def ex : ExecuteInput := executeIn i s (wbBusy i s)

/-- The write port of the register bank, `rbw1`. -/
def rbw : RegWrite := Writeback.port (mregwe i s) (mreg i s) (mdata i s) s.er i.copData

def executeBusy : Bool := Execute.busy (ex i s) s.er

def jump : Bool := Execute.jump (ex i s) s.er

def trap : Bool := Execute.doFault (ex i s) s.er

def flushfd : Bool := jump i s || trap i s

def rbEn (rd : Bool) : Bool := !(executeBusy i s || flushfd i s) && rd

/-- A register that a load has yet to deliver. -/
def isDirty (r : RegAddress) : Bool := s.dirty && r == s.dirtyReg

def allvalid : Bool :=
  !(rbEn i s s.dr.rd1 && isDirty s s.dr.sra1) && !(rbEn i s s.dr.rd2 && isDirty s s.dr.sra2) &&
    !(s.dr.regwe && isDirty s s.dr.dreg) && !(s.dirty && s.dr.valid && s.dr.blocks)

def isBlocking : Bool :=
  s.dr.valid && s.dr.blocks && !executeBusy i s && !jump i s && allvalid i s && !trap i s

def fdControl : Fetchdata.Control where
  freeze := executeBusy i s
  flush := flushfd i s
  refetch := !allvalid i s
  executed := Execute.executed (ex i s) s.er
  clrhold := Execute.clrhold (ex i s) s.er

def freezeDecoder : Bool := executeBusy i s || !allvalid i s

/-- The load that holds the scoreboard is answered. -/
def cleans : Bool := mregwe i s && s.dirty && s.dirtyReg == mreg i s

end Signals

def next (i : BackendInput) (s : Backend) : Backend where
  dr := decodeNext i.fui (freezeDecoder i s) (jump i s) s.dr
  fdr := Fetchdata.next (fdControl i s) s.dr s.fdr
  rr1 := Regbank.read (rbw i s) s.ram (rbEn i s s.dr.rd1) s.dr.sra1 s.rr1
  rr2 := Regbank.read (rbw i s) s.ram (rbEn i s s.dr.rd2) s.dr.sra2 s.rr2
  ram := Regbank.write (rbw i s) s.ram
  er := Execute.next (ex i s) s.er
  mr := Memory.next (access i s) (busIn i s) s.mr
  dirty := ((isBlocking i s && !s.dirty) || s.dirty) && !cleans i s && !s.mr.fault
  dirtyReg := if isBlocking i s && !s.dirty then s.dr.sra2 else s.dirtyReg
  bus :=
    (if (busIn i s).ack then s.bus.tail else s.bus) ++
      if s.mr.wbStb && !i.busStall then [s.mr.wbTago] else []

structure Reset (s : Backend) : Prop where
  dr : ∃ dr, s.dr = decodeFlush dr
  fdr : Fetchdata.Reset s.fdr
  er : Execute.Reset s.er
  mr : Memory.Reset s.mr
  dirty : s.dirty = false
  bus : s.bus = []

end Backend

/-! ## A machine at rest -/

/-- The fetch unit offers one instruction, from the supervisor bank. -/
def fetched (hi lo : Opcode) (valid : Bool) : FetchOutput where
  r := { pc := 0, fpc := 0, state := .running, unaligned := false, unalignedJump := false,
         invertReadout := false, seq := true, priv := true, qopc := 0 }
  opcode := hi ++ lo
  valid := valid
  inverted := false
  npc := 0

/-- A clock in which nothing happens but the fetch. -/
def BackendInput.rest (fui : FetchOutput) : BackendInput where
  fui := fui
  busStall := false
  busAck := false
  busDat := 0
  int := false
  nmi := false
  copData := 0
  copValid := true
  copFault := false
  trapbase := 0x100
  trappc := 0x200
  multValid := false
  multR := 0
  multY := 0
  xAlu := 0
  xOvf := false
  xJumpaddr := 0
  xSprval := 0

/-- Registers out of reset, with zero in what reset does not write. -/
def Backend.reset : Backend where
  dr := decodeReset
  fdr := { drq := decodeReset, rd1q := false, rd2q := false, alu := false, waiting := false,
           alufwa := false, alufwb := false, hold := false, dreg := 0 }
  rr1 := 0
  rr2 := 0
  ram := fun _ => 0
  er := Execute.reset
  mr := { dreg := 0, regwe := false, sprwe := false, macc := .word, wbDat := 0, wbAdr := 0,
          wbWe := false, wbCyc := false, wbStb := false, wbTago := 0, wbSel := 0, fault := false,
          pc := 0, faddr := 0 }
  dirty := false
  dirtyReg := 0
  bus := []

theorem Backend.reset_reset : Backend.reset.Reset where
  dr := ⟨_, rfl⟩
  fdr := ⟨rfl, rfl, rfl, rfl, rfl, rfl, rfl, rfl⟩
  er := ⟨rfl, rfl, rfl, rfl, rfl, rfl, rfl⟩
  mr := ⟨rfl, rfl, rfl⟩
  dirty := rfl
  bus := rfl

end Xtc
