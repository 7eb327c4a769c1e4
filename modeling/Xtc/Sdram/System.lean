import Xtc.Bus.Wishbone
import Xtc.Lib.Dram
import Xtc.Sdram.Controller

/-!
# System — `sdram_wrap.vhd`, the controller and the chip

The chip sees the command of a clock at its own edge in the middle of it, after which the
controller samples the data pins (`captured`); what it drives was decided at its edge before.  The
data pins are unknown, lane by lane, where both ends drive them or none does.
-/

namespace Xtc

namespace Sdram

abbrev Command := Dram.Command (BitVec 2) (BitVec 12) (BitVec 8) (BitVec 12)

abbrev Chip := Dram.Chip (BitVec 2) (BitVec 12) (BitVec 8) (BitVec 12) Half (BitVec 2)

/-! ## Lanes -/

def laneMask (m : BitVec 2) : Half :=
  (BitVec.ofBool (m.getLsbD 1)).replicate 8 ++ (BitVec.ofBool (m.getLsbD 0)).replicate 8

/-- The lanes of `d` that `m` selects, over `w`. -/
def select (m : BitVec 2) (d w : Half) : Half := d &&& laneMask m ||| w &&& ~~~ laneMask m

/-- A set bit of `dqm` keeps its lane from being written. -/
def masked (dqm : BitVec 2) (d w : Half) : Half := select (~~~ dqm) d w

/-! ## The parts together -/

structure SystemInput where
  wbi : Mosi
  x : Unknown
  -- the level of data pins that float, or that two ends drive
  floating : Half

/-- The registers of `resync`, after those of the controller. -/
structure System where
  regs : Regs
  chip : Chip
  wbAckO : Bool
  wbDatO : Word
  wbTagO : Word

/-- The pins of a clock, as the chip reads them. -/
def Regs.command (s : Regs) : Command :=
  match s.rstate.cmd with
  | .nop => .nop
  | .read =>
    if s.address.getLsbD 10 then .autoPrecharge else .read s.bank (s.address.extractLsb' 0 8)
  | .write =>
    if s.address.getLsbD 10 then .autoPrecharge else .write s.bank (s.address.extractLsb' 0 8)
  | .act => .active s.bank s.address
  | .pre => if s.address.getLsbD 10 then .prechargeAll else .precharge s.bank
  | .ref => .refresh
  | .mrs => .mode s.address

namespace System

section Clock

variable (i : SystemInput) (s : System)

/-- What the chip drives, over what the controller drives. -/
def dramDq : Half :=
  match s.chip.dq, s.regs.tristate with
  | some (dqm, d), true => select (~~~ dqm) d i.floating
  | some (dqm, _), false => select dqm s.regs.dataWrite i.floating
  | none, false => s.regs.dataWrite
  | none, true => i.floating

def input : Input where
  address := i.wbi.adr.extractLsb' 2 21
  reqRead := i.wbi.cyc && i.wbi.stb && !i.wbi.we
  reqWrite := i.wbi.cyc && i.wbi.stb && i.wbi.we
  dataIn := i.wbi.dat
  dataMask := i.wbi.sel
  tagIn := i.wbi.tag
  x := i.x

def wbo : Miso where
  ack := s.wbAckO
  dat := s.wbDatO
  tag := s.wbTagO
  err := false
  stall := s.regs.pending

def next : System where
  regs := s.regs.next (input i) (dramDq i s)
  chip := s.chip.clock masked s.regs.command s.regs.dqMasks (dramDq i s)
  wbAckO := s.regs.dataOutValid
  wbDatO := s.regs.dataOutLow ++ dramDq i s
  wbTagO := s.regs.tagOut

end Clock

/-- After a reset; of the chip, and of the registers a reset leaves alone, nothing is known. -/
structure Reset (start : BitVec 15) (s : System) : Prop where
  regs : s.regs.Reset start
  wbAckO : s.wbAckO = false

/-- A reset with an empty chip, and zeros where a reset leaves a register alone. -/
def poweredUp (start : BitVec 15) : System where
  regs :=
    { rstate := .initMrs, address := 0, bank := 0, initCounter := start, rfCounter := 0
      rfPending := false, rdPending := false, wrPending := false, actRow := 0, dataOutLow := 0
      reqAddrQ := 0, reqDataWrite := 0, reqMask := 0, dataOutValid := false, dqMasks := 3
      tristate := true, tagIn := 0, tagOut := 0, tagq := 0, tagqq := 0, dataWrite := 0 }
  chip :=
    { mode := 0, mem := fun _ _ _ => 0, precharged := fun _ => true, row := fun _ => 0
      reading := none, mask := 0, dq := none, rc := 0, mrd := 0, rrd := 0
      rp := fun _ => 0, ras := fun _ => 0, wr := fun _ => 0 }
  wbAckO := false
  wbDatO := 0
  wbTagO := 0

theorem reset_poweredUp (start : BitVec 15) : Reset start (poweredUp start) :=
  ⟨⟨rfl, rfl, rfl, rfl, rfl, rfl, rfl, rfl, rfl, rfl, rfl, rfl, rfl, rfl, rfl⟩, rfl⟩

def quiet : SystemInput := ⟨Mosi.idle, ⟨0, 0, 0, 0⟩, 0⟩

/-- A master that reads one word after the other, as fast as it may. -/
def scanning (n : Nat) : SystemInput :=
  { quiet with wbi := Mosi.reading (BitVec.ofNat 32 (4 * n)) }

/-- A master that writes a word in every third clock. -/
def writing (n : Nat) : SystemInput :=
  if n % 3 = 0 then
    { quiet with wbi :=
      { Mosi.reading (BitVec.ofNat 32 (4 * n)) with we := true, sel := 15 } }
  else quiet

abbrev run (s₀ : System) (inputs : Nat → SystemInput) (n : Nat) : System :=
  Run.states next s₀ inputs n

def takes (i : SystemInput) (s : System) : Option WbRequest := i.wbi.taken s.wbo.stall

/-- In the last clock of a write, with a refresh waiting, the slot is not filled although the bus is
not stalled. -/
def drops (s : System) : Bool := s.regs.rstate == .wr3 && s.regs.rfPending

def keeps (i : SystemInput) (s : System) : Option WbRequest :=
  if s.drops then none else takes i s

end System

end Sdram

end Xtc
