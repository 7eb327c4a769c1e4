import Xtc.Core.Package

/-!
# Controller — the SDRAM controller `sdram_hamster.vhd`

One request waits in a slot while the state machine works on the one before.  A word is two columns
of the chip, the upper half first.  The low four bits of `rstate` are the command pins, so a state
is also the command of its clock.  `CL` is 2, as the source sets it; a value the source makes
unknown is an input of the clock.
-/

namespace Xtc

namespace Sdram

/-- The `s_*` constants. -/
inductive State
  | initNop | initPre | initRef | initMrs
  | idle
  | rf0 | rf1 | rf2 | rf3 | rf4 | rf5
  | ra0 | ra1 | ra2
  | dr0 | dr1
  | wr0 | wr1 | wr2 | wr3
  | rd0 | rd1 | rd2 | rd3 | rd4 | rd5 | rd6 | rd7 | rd8 | rd9
  | drdr0 | drdr1 | drdr2
  deriving DecidableEq, Repr

/-- The `cmd_*` constants. -/
inductive Cmd
  | nop | read | write | act | pre | ref | mrs
  deriving DecidableEq, Repr

namespace State

/-- The low four bits of the constant. -/
def cmd : State → Cmd
  | initPre | dr0 | drdr0 => .pre
  | initRef | rf0 => .ref
  | initMrs => .mrs
  | ra0 => .act
  | wr0 | wr3 => .write
  | rd0 | rd1 | rd3 | rd4 | rd5 => .read
  | _ => .nop

/-- The states that are entered after the initialisation. -/
def live : State → Bool
  | initNop | initPre | initRef | initMrs | wr1 | rd2 | rd7 | rd8 | rd9 | drdr0 | drdr1 | drdr2 =>
    false
  | _ => true

/-- The five high bits are `s_init_nop_id`. -/
def isInit : State → Bool
  | initNop | initPre | initRef | initMrs => true
  | _ => false

end State

def MHZ : Nat := 96
def REFRESH_CYCLES : Nat := 4096
def RELOAD : Nat := 64000000 / REFRESH_CYCLES * MHZ / 1000 - 10

abbrev Half := BitVec 16

/-- The values of the clock's `'X'`s. -/
structure Unknown where
  address : BitVec 12
  reqDataWrite : Word
  reqMask : BitVec 4
  dataWrite : Half

structure Input where
  -- `address(22 downto 2)`
  address : BitVec 21
  reqRead : Bool
  reqWrite : Bool
  dataIn : Word
  dataMask : BitVec 4
  tagIn : Word
  x : Unknown

/-- The registers `reg`, with `rstate`. -/
structure Regs where
  rstate : State
  address : BitVec 12
  bank : BitVec 2
  initCounter : BitVec 15
  rfCounter : Nat
  rfPending : Bool
  rdPending : Bool
  wrPending : Bool
  actRow : BitVec 12
  dataOutLow : Half
  reqAddrQ : BitVec 21
  reqDataWrite : Word
  reqMask : BitVec 4
  dataOutValid : Bool
  dqMasks : BitVec 2
  tristate : Bool
  tagIn : Word
  tagOut : Word
  tagq : Word
  tagqq : Word
  dataWrite : Half

/-- The fields of an address: `rrrrrrrrrrrrbbccccccc`. -/
def rowOf (a : BitVec 21) : BitVec 12 := a.extractLsb' 9 12
def bankOf (a : BitVec 21) : BitVec 2 := a.extractLsb' 7 2
def colOf (a : BitVec 21) : BitVec 8 := a.extractLsb' 0 7 ++ 0#1

def setBit (a : BitVec 12) (k : Nat) : BitVec 12 := a ||| 1#12 <<< k

/-- The mode register: CAS latency 2, sequential, bursts of one. -/
def modeWord : BitVec 12 := 0x020#12

namespace Regs

section Signals

variable (s : Regs)

def addrRow : BitVec 12 := rowOf s.reqAddrQ
def addrBank : BitVec 2 := bankOf s.reqAddrQ
def addrCol : BitVec 8 := colOf s.reqAddrQ

def pending : Bool := s.wrPending || s.rdPending

def sameRow : Bool := s.actRow == s.addrRow && s.bank == s.addrBank

end Signals

section Process

variable (i : Input) (captured : Half) (s n : Regs)

def takeRead : Regs :=
  if i.reqRead && !s.rdPending && !s.wrPending then
    { n with
      rdPending := true
      reqAddrQ := i.address
      reqDataWrite := i.x.reqDataWrite
      reqMask := i.x.reqMask
      tagIn := i.tagIn }
  else n

def takeWrite : Regs :=
  if i.reqWrite && !s.wrPending && !s.rdPending then
    { n with
      wrPending := true
      reqAddrQ := i.address
      reqDataWrite := i.dataIn
      reqMask := i.dataMask
      tagIn := i.tagIn }
  else n

def countRefresh : Regs :=
  if s.rfCounter = RELOAD then { n with rfCounter := 0, rfPending := true }
  else if s.rstate.isInit then n
  else { n with rfCounter := s.rfCounter + 1 }

def defaults : Regs :=
  { n with
    dqMasks := 3
    tristate := false
    initCounter := s.initCounter - 1
    dataOutValid := false }

/-- The tags of the answers, shifted as with `CL = 2`. -/
def shifttags : Regs := { n with tagq := s.tagIn, tagqq := s.tagq, tagOut := s.tagq }

def readColumn : Regs :=
  { n with
    address := s.addrCol.setWidth 12
    bank := s.addrBank
    dqMasks := 0
    rdPending := false }

def writeColumn : Regs :=
  { n with
    address := s.addrCol.setWidth 12
    dataWrite := s.reqDataWrite.extractLsb' 16 16
    bank := s.addrBank
    dqMasks := ~~~ s.reqMask.extractLsb' 2 2
    wrPending := false }

def initStep : Regs :=
  let n := { n with rstate := .initNop, address := i.x.address, bank := 0, rfCounter := 0 }
  let n :=
    if s.initCounter = 130 then { n with rstate := .initPre, address := setBit n.address 10 }
    else n
  let n :=
    if s.initCounter.extractLsb' 7 8 = 0 ∧ s.initCounter.extractLsb' 0 4 = 15 then
      { n with rstate := .initRef }
    else n
  let n :=
    if s.initCounter = 3 then { n with rstate := .initMrs, address := modeWord, bank := 0 } else n
  if s.initCounter = 1 then { n with rstate := .idle } else n

def idleStep : Regs :=
  { n with
    rstate := if s.rfPending then .rf0 else if s.pending then .ra0 else .idle
    address := s.addrRow
    actRow := s.addrRow
    bank := s.addrBank
    rfPending := false }

def ra2Step : Regs :=
  let n := { n with rstate := .ra2, tristate := false, address := i.x.address }
  if s.rfPending then { n with rstate := .dr0, address := setBit n.address 10 }
  else
    let n := if s.pending then { n with rstate := .dr0, address := setBit n.address 10 } else n
    let n :=
      if s.rdPending && s.sameRow then
        shifttags s { readColumn s n with rstate := .rd0, dataWrite := i.x.dataWrite }
      else n
    if s.wrPending && s.sameRow then shifttags s { writeColumn s n with rstate := .wr0 } else n

def wr3Step : Regs :=
  let n := shifttags s { n with
    rstate := if s.pending then .wr2 else .ra2
    dataOutValid := true
    tristate := false
    dqMasks := 3
    address := i.x.address }
  let n := if s.rdPending && s.sameRow then { readColumn s n with rstate := .rd0 } else n
  let n := if s.wrPending && s.sameRow then { writeColumn s n with rstate := .wr0 } else n
  if s.rfPending then
    { n with rstate := .wr2, wrPending := s.wrPending, rdPending := s.rdPending }
  else n

/-- The states `s_rd1` and `s_rd4`: another read of the row follows at once, in state `again`. -/
def nextRead (again : State) : Regs :=
  let n := { n with rstate := .rd6, dqMasks := 0, tristate := true, address := i.x.address }
  shifttags s
    (if s.rdPending && s.sameRow then
      { readColumn s n with rstate := again, dataWrite := i.x.dataWrite }
    else n)

/-- The states `s_rd3` and `s_rd5`. -/
def captureRead : Regs :=
  { n with
    rstate := .rd4
    dqMasks := 0
    address := setBit s.address 0
    tristate := true
    dataOutLow := captured
    dataOutValid := true }

def drdr2Step : Regs :=
  let n := { n with rstate := if s.rfPending then .rf0 else .idle, address := i.x.address }
  if s.pending then
    { n with rstate := .ra0, address := s.addrRow, actRow := s.addrRow, bank := s.addrBank }
  else n

def wait (after : State) : Regs := { n with rstate := after, address := i.x.address }

def fsm : Regs :=
  match s.rstate with
  | .initNop | .initPre | .initRef | .initMrs => initStep i s n
  | .idle => idleStep s n
  | .ra0 => { n with rstate := .ra1 }
  | .ra1 => { n with rstate := .ra2 }
  | .ra2 => ra2Step i s n
  | .dr0 => wait i n .dr1
  | .dr1 => wait i n .idle
  | .rf0 => wait i n .rf1
  | .rf1 => wait i n .rf2
  | .rf2 => wait i n .rf3
  | .rf3 => wait i n .rf4
  | .rf4 => wait i n .rf5
  | .rf5 => wait i n .idle
  | .wr0 =>
    shifttags s { n with
      rstate := .wr3
      bank := s.addrBank
      address := setBit s.address 0
      dataWrite := s.reqDataWrite.extractLsb' 0 16
      dqMasks := ~~~ s.reqMask.extractLsb' 0 2
      tristate := false }
  | .wr1 => n
  | .wr2 => { n with rstate := .dr0, address := setBit s.address 10 }
  | .wr3 => wr3Step i s n
  | .rd0 =>
    { n with rstate := .rd1, tristate := true, dqMasks := 0, address := setBit s.address 0 }
  | .rd1 => nextRead i s n .rd3
  | .rd2 => { n with rstate := .rd7, dqMasks := 0, tristate := true }
  | .rd3 => captureRead captured s n
  | .rd4 => nextRead i s n .rd5
  | .rd5 => captureRead captured s n
  | .rd6 =>
    { n with
      rstate := .ra2
      dqMasks := 0
      tristate := true
      address := i.x.address
      dataOutLow := captured
      dataOutValid := true }
  | .rd7 => shifttags s { n with rstate := .ra2, address := i.x.address, tristate := true }
  | .rd8 => n
  | .rd9 => n
  | .drdr0 => wait i n .drdr1
  | .drdr1 =>
    shifttags s { n with
      rstate := .drdr2
      address := i.x.address
      dataOutLow := captured
      dataOutValid := true }
  | .drdr2 => drdr2Step i s n

/-- What the process has assigned before it looks at the state. -/
def prepared : Regs := defaults s (countRefresh s (takeWrite i s (takeRead i s s)))

def next : Regs := fsm i captured s (prepared i s)

end Process

/-- The registers that a reset sets, with the start of `init_counter`: 16384 in the synthesised
design, 256 in simulation. -/
structure Reset (start : BitVec 15) (s : Regs) : Prop where
  rstate : s.rstate = .initMrs
  address : s.address = 0
  bank : s.bank = 0
  initCounter : s.initCounter = start
  rfCounter : s.rfCounter = 0
  rfPending : s.rfPending = false
  rdPending : s.rdPending = false
  wrPending : s.wrPending = false
  actRow : s.actRow = 0
  dataOutLow : s.dataOutLow = 0
  dataOutValid : s.dataOutValid = false
  dqMasks : s.dqMasks = 3
  tristate : s.tristate = true
  tagIn : s.tagIn = 0
  tagOut : s.tagOut = 0

/-! ## What is prepared -/

section Prepared

variable (i : Input) (s : Regs)

/-- A request is taken into the empty slot. -/
def takesRead : Bool := i.reqRead && !s.pending
def takesWrite : Bool := i.reqWrite && !s.pending

def expires : Bool := s.rfCounter == RELOAD

theorem countRefresh_eq (n : Regs) : countRefresh s n =
    { n with
      rfCounter :=
        if expires s then 0 else if s.rstate.isInit then n.rfCounter else s.rfCounter + 1
      rfPending := n.rfPending || expires s } := by
  have hexp : s.rfCounter = RELOAD ↔ expires s = true := by simp [expires]
  unfold countRefresh
  simp only [hexp]
  cases expires s <;> cases s.rstate.isInit <;> simp

theorem takeWrite_takeRead : takeWrite i s (takeRead i s s) =
    { s with
      rdPending := s.rdPending || takesRead i s
      wrPending := s.wrPending || takesWrite i s
      reqAddrQ := if takesRead i s || takesWrite i s then i.address else s.reqAddrQ
      reqDataWrite :=
        if takesWrite i s then i.dataIn
        else if takesRead i s then i.x.reqDataWrite else s.reqDataWrite
      reqMask :=
        if takesWrite i s then i.dataMask
        else if takesRead i s then i.x.reqMask else s.reqMask
      tagIn := if takesRead i s || takesWrite i s then i.tagIn else s.tagIn } := by
  obtain ⟨_, _, _, _, _, _, rd, wr⟩ := s
  unfold takeWrite takeRead takesRead takesWrite pending
  cases rd <;> cases wr <;> cases i.reqRead <;> cases i.reqWrite <;> rfl

theorem prepared_eq : prepared i s =
    { s with
      dqMasks := 3
      tristate := false
      initCounter := s.initCounter - 1
      dataOutValid := false
      rfCounter :=
        if expires s then 0 else if s.rstate.isInit then s.rfCounter else s.rfCounter + 1
      rfPending := s.rfPending || expires s
      rdPending := s.rdPending || takesRead i s
      wrPending := s.wrPending || takesWrite i s
      reqAddrQ := if takesRead i s || takesWrite i s then i.address else s.reqAddrQ
      reqDataWrite :=
        if takesWrite i s then i.dataIn
        else if takesRead i s then i.x.reqDataWrite else s.reqDataWrite
      reqMask :=
        if takesWrite i s then i.dataMask
        else if takesRead i s then i.x.reqMask else s.reqMask
      tagIn := if takesRead i s || takesWrite i s then i.tagIn else s.tagIn } := by
  rw [prepared, takeWrite_takeRead, countRefresh_eq]
  rfl

@[simp] theorem prepared_rstate : (prepared i s).rstate = s.rstate := by
  rw [prepared_eq]

@[simp] theorem prepared_address : (prepared i s).address = s.address := by
  rw [prepared_eq]

@[simp] theorem prepared_bank : (prepared i s).bank = s.bank := by
  rw [prepared_eq]

@[simp] theorem prepared_initCounter : (prepared i s).initCounter = s.initCounter - 1 := by
  rw [prepared_eq]

@[simp] theorem prepared_rfCounter : (prepared i s).rfCounter =
    if expires s then 0 else if s.rstate.isInit then s.rfCounter else s.rfCounter + 1 := by
  rw [prepared_eq]

@[simp] theorem prepared_rfPending : (prepared i s).rfPending = (s.rfPending || expires s) := by
  rw [prepared_eq]

@[simp] theorem prepared_rdPending : (prepared i s).rdPending = (s.rdPending || takesRead i s) := by
  rw [prepared_eq]

@[simp] theorem prepared_wrPending : (prepared i s).wrPending =
    (s.wrPending || takesWrite i s) := by
  rw [prepared_eq]

@[simp] theorem prepared_actRow : (prepared i s).actRow = s.actRow := by
  rw [prepared_eq]

@[simp] theorem prepared_dataOutLow : (prepared i s).dataOutLow = s.dataOutLow := by
  rw [prepared_eq]

@[simp] theorem prepared_reqAddrQ : (prepared i s).reqAddrQ =
    if takesRead i s || takesWrite i s then i.address else s.reqAddrQ := by
  rw [prepared_eq]

@[simp] theorem prepared_reqDataWrite : (prepared i s).reqDataWrite =
    if takesWrite i s then i.dataIn
    else if takesRead i s then i.x.reqDataWrite else s.reqDataWrite := by
  rw [prepared_eq]

@[simp] theorem prepared_reqMask : (prepared i s).reqMask =
    if takesWrite i s then i.dataMask else if takesRead i s then i.x.reqMask else s.reqMask := by
  rw [prepared_eq]

@[simp] theorem prepared_dataOutValid : (prepared i s).dataOutValid = false := by
  rw [prepared_eq]

@[simp] theorem prepared_dqMasks : (prepared i s).dqMasks = 3 := by
  rw [prepared_eq]

@[simp] theorem prepared_tristate : (prepared i s).tristate = false := by
  rw [prepared_eq]

@[simp] theorem prepared_tagIn : (prepared i s).tagIn =
    if takesRead i s || takesWrite i s then i.tagIn else s.tagIn := by
  rw [prepared_eq]

@[simp] theorem prepared_tagOut : (prepared i s).tagOut = s.tagOut := by
  rw [prepared_eq]

@[simp] theorem prepared_tagq : (prepared i s).tagq = s.tagq := by
  rw [prepared_eq]

@[simp] theorem prepared_dataWrite : (prepared i s).dataWrite = s.dataWrite := by
  rw [prepared_eq]

end Prepared

/-! ## What a clock does -/

/-- The last clock of a write, whatever follows. -/
def written (i : Input) (s n : Regs) : Regs :=
  shifttags s { n with
    dataOutValid := true
    tristate := false
    dqMasks := 3
    address := i.x.address }

/-- The clocks after the initialisation, from `s` to what they leave. -/
inductive Clock (i : Input) (captured : Half) (s : Regs) : Regs → Prop
  | idle (h : s.rstate = .idle) : Clock i captured s (idleStep s (prepared i s))
  -- the states between, which only wait
  | rest {after : State} (h : (s.rstate, after) ∈
      [(.ra0, .ra1), (.ra1, .ra2), (.dr0, .dr1), (.dr1, .idle), (.rf0, .rf1), (.rf1, .rf2),
        (.rf2, .rf3), (.rf3, .rf4), (.rf4, .rf5), (.rf5, .idle)]) (address : BitVec 12) :
      Clock i captured s { prepared i s with rstate := after, address := address }
  | stay (h : s.rstate = .ra2) (hrf : s.rfPending = false) (hp : s.pending = false) :
      Clock i captured s { prepared i s with rstate := .ra2, address := i.x.address }
  | close (h : s.rstate = .ra2)
      (hrow : s.rfPending = true ∨ s.pending = true ∧ s.sameRow = false) :
      Clock i captured s { prepared i s with rstate := .dr0, address := setBit i.x.address 10 }
  | read (h : s.rstate = .ra2) (hrf : s.rfPending = false) (hrd : s.rdPending = true)
      (hwr : s.wrPending = false) (hrow : s.sameRow = true) :
      Clock i captured s (shifttags s
        { readColumn s (prepared i s) with rstate := .rd0, dataWrite := i.x.dataWrite })
  | write (h : s.rstate = .ra2) (hrf : s.rfPending = false) (hrd : s.rdPending = false)
      (hwr : s.wrPending = true) (hrow : s.sameRow = true) :
      Clock i captured s (shifttags s { writeColumn s (prepared i s) with rstate := .wr0 })
  | wr0 (h : s.rstate = .wr0) :
      Clock i captured s (shifttags s { prepared i s with
        rstate := .wr3
        bank := s.addrBank
        address := setBit s.address 0
        dataWrite := s.reqDataWrite.extractLsb' 0 16
        dqMasks := ~~~ s.reqMask.extractLsb' 0 2 })
  | wr2 (h : s.rstate = .wr2) :
      Clock i captured s { prepared i s with rstate := .dr0, address := setBit s.address 10 }
  | wr3Stay (h : s.rstate = .wr3) (hrf : s.rfPending = false) (hp : s.pending = false) :
      Clock i captured s { written i s (prepared i s) with rstate := .ra2 }
  | wr3Close (h : s.rstate = .wr3) (hrf : s.rfPending = false) (hp : s.pending = true)
      (hrow : s.sameRow = false) :
      Clock i captured s { written i s (prepared i s) with rstate := .wr2 }
  | wr3Read (h : s.rstate = .wr3) (hrf : s.rfPending = false) (hrd : s.rdPending = true)
      (hwr : s.wrPending = false) (hrow : s.sameRow = true) :
      Clock i captured s { readColumn s (written i s (prepared i s)) with rstate := .rd0 }
  | wr3Write (h : s.rstate = .wr3) (hrf : s.rfPending = false) (hrd : s.rdPending = false)
      (hwr : s.wrPending = true) (hrow : s.sameRow = true) :
      Clock i captured s { writeColumn s (written i s (prepared i s)) with rstate := .wr0 }
  -- the request waits on, and one that is taken now is dropped
  | wr3Refresh (h : s.rstate = .wr3) (hrf : s.rfPending = true) (address : BitVec 12)
      (dqMasks : BitVec 2) (dataWrite : Half) :
      Clock i captured s { written i s (prepared i s) with
        rstate := .wr2
        rdPending := s.rdPending
        wrPending := s.wrPending
        address := address
        dqMasks := dqMasks
        dataWrite := dataWrite }
  | rd0 (h : s.rstate = .rd0) :
      Clock i captured s { prepared i s with
        rstate := .rd1, tristate := true, dqMasks := 0, address := setBit s.address 0 }
  | again {after : State} (h : (s.rstate, after) ∈ [(.rd1, .rd3), (.rd4, .rd5)])
      (hrd : s.rdPending = true) (hrow : s.sameRow = true) :
      Clock i captured s (shifttags s { readColumn s { prepared i s with tristate := true } with
        rstate := after, dataWrite := i.x.dataWrite })
  | last (h : s.rstate ∈ [.rd1, .rd4]) (hnone : (s.rdPending && s.sameRow) = false) :
      Clock i captured s (shifttags s { prepared i s with
        rstate := .rd6, dqMasks := 0, tristate := true, address := i.x.address })
  | capture (h : s.rstate ∈ [.rd3, .rd5]) :
      Clock i captured s { prepared i s with
        rstate := .rd4
        dqMasks := 0
        address := setBit s.address 0
        tristate := true
        dataOutLow := captured
        dataOutValid := true }
  | rd6 (h : s.rstate = .rd6) :
      Clock i captured s { prepared i s with
        rstate := .ra2
        dqMasks := 0
        tristate := true
        address := i.x.address
        dataOutLow := captured
        dataOutValid := true }

section Steps

variable {i : Input} {captured : Half} {s : Regs}

theorem clock_ra2 (hone : (s.rdPending && s.wrPending) = false) (h : s.rstate = .ra2) :
    Clock i captured s (ra2Step i s (prepared i s)) := by
  cases hrf : s.rfPending
  case true => simpa [ra2Step, hrf] using Clock.close h (.inl hrf)
  case false =>
    cases hp : s.pending
    case false =>
      have hnone : s.wrPending = false ∧ s.rdPending = false := by simpa [pending] using hp
      simpa [ra2Step, hrf, hp, hnone] using Clock.stay h hrf hp
    case true =>
      cases hrow : s.sameRow
      case false => simpa [ra2Step, hrf, hp, hrow] using Clock.close h (.inr ⟨hp, hrow⟩)
      case true =>
        cases hrd : s.rdPending
        case true =>
          have hwr : s.wrPending = false := by simpa [hrd] using hone
          simpa [ra2Step, hrf, hp, hrow, hrd, hwr, readColumn] using
            Clock.read h hrf hrd hwr hrow
        case false =>
          have hwr : s.wrPending = true := by simpa [pending, hrd] using hp
          simpa [ra2Step, hrf, hp, hrow, hrd, hwr, writeColumn] using
            Clock.write h hrf hrd hwr hrow

theorem bank_of_sameRow (h : s.sameRow = true) : s.addrBank = s.bank := by
  have hboth : s.actRow = s.addrRow ∧ s.bank = s.addrBank := by simpa [sameRow] using h
  exact hboth.2.symm

theorem clock_wr3 (hone : (s.rdPending && s.wrPending) = false) (h : s.rstate = .wr3) :
    Clock i captured s (wr3Step i s (prepared i s)) := by
  cases hrf : s.rfPending
  case true =>
    have heq : wr3Step i s (prepared i s) = { written i s (prepared i s) with
        rstate := .wr2
        rdPending := s.rdPending
        wrPending := s.wrPending
        address := (wr3Step i s (prepared i s)).address
        dqMasks := (wr3Step i s (prepared i s)).dqMasks
        dataWrite := (wr3Step i s (prepared i s)).dataWrite } := by
      cases hrow : s.sameRow <;> cases hrd : s.rdPending <;> cases hwr : s.wrPending <;>
        simp [wr3Step, written, shifttags, readColumn, writeColumn, hrf, hrow, hrd, hwr,
          bank_of_sameRow]
    rw [heq]
    exact .wr3Refresh h hrf _ _ _
  case false =>
    cases hp : s.pending
    case false =>
      have hnone : s.wrPending = false ∧ s.rdPending = false := by simpa [pending] using hp
      simpa [wr3Step, written, shifttags, hrf, hp, hnone] using Clock.wr3Stay h hrf hp
    case true =>
      cases hrow : s.sameRow
      case false =>
        simpa [wr3Step, written, shifttags, hrf, hp, hrow] using Clock.wr3Close h hrf hp hrow
      case true =>
        cases hrd : s.rdPending
        case true =>
          have hwr : s.wrPending = false := by simpa [hrd] using hone
          simpa [wr3Step, written, shifttags, readColumn, hrf, hrow, hrd, hwr] using
            Clock.wr3Read h hrf hrd hwr hrow
        case false =>
          have hwr : s.wrPending = true := by simpa [pending, hrd] using hp
          simpa [wr3Step, written, shifttags, writeColumn, hrf, hrow, hrd, hwr] using
            Clock.wr3Write h hrf hrd hwr hrow

theorem clock_nextRead {after : State} (h : (s.rstate, after) ∈ [(.rd1, .rd3), (.rd4, .rd5)]) :
    Clock i captured s (nextRead i s (prepared i s) after) := by
  cases hrd : s.rdPending && s.sameRow
  case true =>
    have hboth : s.rdPending = true ∧ s.sameRow = true := by simpa using hrd
    simpa [nextRead, readColumn, hboth] using Clock.again h hboth.1 hboth.2
  case false =>
    have hmem : s.rstate ∈ [State.rd1, State.rd4] := by
      simp only [List.mem_cons, List.not_mem_nil, or_false, Prod.mk.injEq] at h ⊢
      exact h.imp And.left And.left
    simpa [nextRead, hrd] using Clock.last hmem hrd

/-- Every clock after the initialisation is one of them. -/
theorem clock_next (hlive : s.rstate.live = true) (hone : (s.rdPending && s.wrPending) = false) :
    Clock i captured s (next i captured s) := by
  rw [next, fsm]
  cases h : s.rstate
  case idle => exact .idle h
  case ra2 => exact clock_ra2 hone h
  case wr3 => exact clock_wr3 hone h
  case rd1 | rd4 => exact clock_nextRead (by simp [h])
  case rd3 | rd5 => exact .capture (by simp [h])
  case wr0 => simpa using Clock.wr0 h
  case wr2 => exact .wr2 h
  case rd0 => exact .rd0 h
  case rd6 => exact .rd6 h
  case ra0 | ra1 => exact .rest (by simp [h]) (prepared i s).address
  case dr0 | dr1 | rf0 | rf1 | rf2 | rf3 | rf4 | rf5 => exact .rest (by simp [h]) i.x.address
  all_goals exact absurd (h ▸ hlive) (by decide)

end Steps

end Regs

end Sdram

end Xtc
