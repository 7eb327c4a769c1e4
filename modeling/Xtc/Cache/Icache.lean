import Xtc.Core.Fetch
import Xtc.Lib.Run
import Xtc.Lib.Slave

/-!
# Icache — the instruction cache `icache.vhd`

128 lines of 16 words.  A miss fills the whole line, starting at the word that was asked for, and
words are delivered as they arrive; the tag is written when the line is complete.  `tagen` is low.
A value the source makes unknown is an input of the clock.
-/

namespace Xtc

abbrev LineId := BitVec 7
abbrev Offset := BitVec 4
abbrev Tag := BitVec 19

def tagOf (a : Word) : Tag := a.extractLsb 31 13

def lineOf (a : Word) : LineId := a.extractLsb 12 6

def offsetOf (a : Word) : Offset := a.extractLsb 5 2

def wordAddress (t : Tag) (l : LineId) (o : Offset) : Word := t ++ l ++ o ++ 0#2

inductive IcacheState
  | flushing | running | filling | ending
  deriving DecidableEq, Repr

/-- The record `icache_regs_type`, without `busy` and `fill_success`, which nothing reads. -/
structure IcacheRegs where
  cyc : Bool
  stb : Bool
  state : IcacheState
  flushcnt : LineId
  tagMemWen : Bool
  wbaddr : Tag
  offcnt : Offset
  offcntWrite : Offset
  stbcount : Offset
  accessQ : Bool
  queuedAddress : Bool
  saveAddr : Word
  lineSave : LineId
  tagSave : Tag
  enableQ : Bool
  iwfready : Bool
  fault : Bool
  flush : Bool

structure TagEntry where
  valid : Bool
  tag : Tag
  deriving DecidableEq

structure IcacheRequest where
  adr : Word
  tag : Offset
  deriving DecidableEq

structure IcacheInput where
  address : Word
  strobe : Bool
  enable : Bool
  seq : Bool
  flush : Bool
  abort : Bool
  -- the bus slave
  busStall : Bool
  busAck : Bool
  -- a word that is read while it is written: the new one
  collide : Bool
  -- unknown levels
  xStb : Bool
  xFlushcnt : LineId
  xWbaddr : Tag
  xOffcnt : Offset
  xOffcntWrite : Offset
  xStbcount : Offset
  xLineSave : LineId
  xTagSave : Tag

/-- An address of the first line, and a bus that answers at once. -/
def IcacheInput.answering (strobe : Bool) : IcacheInput where
  address := 0x40000000
  strobe := strobe
  enable := true
  seq := true
  flush := false
  abort := false
  busStall := false
  busAck := true
  collide := true
  xStb := false
  xFlushcnt := 0
  xWbaddr := 0
  xOffcnt := 0
  xOffcntWrite := 0
  xStbcount := 0
  xLineSave := 0
  xTagSave := 0

structure Icache where
  r : IcacheRegs
  ctag : TagEntry
  data : Word
  tagRam : LineId → TagEntry
  dataRam : LineId → Offset → Word
  -- requests the bus slave has taken
  bus : List IcacheRequest

namespace Icache

section Signals

variable (i : IcacheInput) (s : Icache)

def hit : Bool := s.ctag.tag == tagOf s.r.saveAddr && s.ctag.valid

def misses : Bool := s.r.accessQ && s.r.enableQ && !hit s && !i.abort

def accessToSameLine : Bool :=
  s.r.lineSave == lineOf s.r.saveAddr && s.r.tagSave == tagOf s.r.saveAddr

/-- The value of `stall_input` in the filling state before `flush` is looked at. -/
def fillStall : Bool :=
  !i.enable || !s.r.iwfready || (s.r.accessQ && !accessToSameLine s) || s.r.fault

def stallInput : Bool :=
  match s.r.state with
  | .flushing => true
  | .running => misses i s || i.flush
  | .filling => fillStall i s || i.flush
  | .ending => true

/-- A new address is refused by a non-sequential access and by a line change. -/
def fillFault : Bool :=
  i.enable && ((!i.seq && i.strobe && s.r.iwfready) || (s.r.accessQ && !accessToSameLine s))

def dataValid : Bool :=
  match s.r.state with
  | .flushing => false
  | .running => if s.r.accessQ && s.r.enableQ then !misses i s else hit s
  | .filling => !stallInput i s && !(!i.seq && i.strobe)
  | .ending => false

def accepts : Bool := i.strobe && i.enable && !stallInput i s

def tagMemEnable : Bool :=
  match s.r.state with
  | .flushing | .running => i.enable && i.strobe
  | .filling | .ending => true

def cacheMemEnable : Bool :=
  match s.r.state with
  | .flushing | .running | .filling => i.enable && i.strobe
  | .ending => true

def cacheAddrRead : Word :=
  match s.r.state with
  | .flushing | .running => i.address
  | .filling => if s.r.iwfready then i.address else s.r.saveAddr
  | .ending => s.r.saveAddr

def tagMemAddr : LineId := if s.r.state = .flushing then s.r.flushcnt else s.r.lineSave

/-- The alias `tag_save` is the tag of `save_addr`, not the register of that name. -/
def tagMemData : TagEntry where
  valid := !decide (s.r.state = .flushing)
  tag := tagOf s.r.saveAddr

def request : Option IcacheRequest :=
  if s.r.cyc && s.r.stb && !i.busStall then
    some { adr := wordAddress s.r.wbaddr s.r.lineSave s.r.offcnt, tag := s.r.offcnt }
  else none

def offered : List IcacheRequest := Slave.offered s.bus (request i s)

/-- The signal `mwbi`: the request that is answered. -/
def answer : Option IcacheRequest := Slave.answer i.busAck (offered i s)

end Signals

/-! ## Registers -/

section Registers

variable (i : IcacheInput) (s : Icache)

def startFill (w : IcacheRegs) : IcacheRegs :=
  { w with
    state := .filling
    wbaddr := tagOf s.r.saveAddr
    offcnt := offsetOf s.r.saveAddr
    offcntWrite := 15
    stbcount := 15
    cyc := true
    stb := true }

/-- The fill is of the line and the tag of `save_addr`. -/
def startFillQueued (w : IcacheRegs) : IcacheRegs :=
  { startFill s w with
    queuedAddress := false
    lineSave := lineOf s.r.saveAddr
    tagSave := tagOf s.r.saveAddr }

def startFlush (w : IcacheRegs) : IcacheRegs :=
  { w with state := .flushing, flushcnt := 127, tagMemWen := true }

def defaults : IcacheRegs := { s.r with cyc := false, tagMemWen := false, flushcnt := i.xFlushcnt }

def flushingNext : IcacheRegs :=
  let w := { defaults i s with
    flushcnt := s.r.flushcnt - 1
    tagMemWen := true
    wbaddr := i.xWbaddr
    offcnt := i.xOffcnt
    offcntWrite := i.xOffcntWrite
    iwfready := false }
  if s.r.flushcnt = 0 then
    let w := { w with tagMemWen := false }
    if s.r.queuedAddress && s.r.fault then startFillQueued s w else { w with state := .running }
  else w

def runningNext : IcacheRegs :=
  let w := { defaults i s with
    offcnt := i.xOffcnt
    offcntWrite := i.xOffcntWrite
    wbaddr := i.xWbaddr
    iwfready := false
    stb := i.xStb }
  let w := if misses i s then startFill s w else w
  let w := if i.flush then startFlush w else w
  { w with queuedAddress := s.r.accessQ && !dataValid i s, fault := false }

def fillingNext : IcacheRegs :=
  let acked := (answer i s).isSome
  let last := acked && s.r.offcntWrite == 0
  { defaults i s with
    cyc := true
    stb := if !i.busStall && s.r.stbcount == 0 then false else s.r.stb
    state := if last then .ending else s.r.state
    tagMemWen := last
    offcnt := if i.busStall then s.r.offcnt else s.r.offcnt + 1
    offcntWrite := if acked then s.r.offcntWrite - 1 else s.r.offcntWrite
    stbcount := if !i.busStall && s.r.stbcount != 0 then s.r.stbcount - 1 else s.r.stbcount
    iwfready :=
      if i.enable && s.r.iwfready && i.strobe then false
      else if acked then i.enable else s.r.iwfready
    queuedAddress := if fillStall i s then s.r.queuedAddress else i.enable && i.strobe
    fault := s.r.fault || fillFault i s || i.flush || i.abort
    flush := s.r.flush || i.flush }

def endingNext : IcacheRegs :=
  let w := { defaults i s with
    wbaddr := i.xWbaddr
    offcnt := i.xOffcnt
    offcntWrite := i.xOffcntWrite
    stbcount := i.xStbcount
    lineSave := i.xLineSave
    tagSave := i.xTagSave
    iwfready := false
    fault := false
    flush := false }
  let w := if s.r.queuedAddress then startFillQueued s w else { w with state := .running }
  if s.r.flush then { startFlush w with cyc := false } else w

def caseNext : IcacheRegs :=
  match s.r.state with
  | .flushing => flushingNext i s
  | .running => runningNext i s
  | .filling => fillingNext i s
  | .ending => endingNext i s

/-- The address register, which every state shares. -/
def regsNext : IcacheRegs :=
  let w := caseNext i s
  let first := accepts i s && decide (s.r.state = .running)
  { w with
    saveAddr := if accepts i s then i.address else w.saveAddr
    lineSave := if first then lineOf i.address else w.lineSave
    tagSave := if first then tagOf i.address else w.tagSave
    accessQ := if i.abort then false
      else if stallInput i s then w.accessQ else i.strobe && i.enable
    queuedAddress := if i.abort then false else w.queuedAddress
    enableQ := i.enable }

def tagRamNext : LineId → TagEntry := fun l =>
  if s.r.tagMemWen && l == tagMemAddr s then tagMemData s else s.tagRam l

variable (rom : Word → Word)

/-- An answer is written wherever it comes from. -/
def dataRamNext : LineId → Offset → Word := fun l o =>
  match answer i s with
  | some q => if l = s.r.lineSave ∧ o = q.tag then rom q.adr else s.dataRam l o
  | none => s.dataRam l o

def next : Icache where
  r := regsNext i s
  ctag :=
    if tagMemEnable i s then
      (if i.collide then tagRamNext s else s.tagRam) (lineOf (cacheAddrRead i s))
    else s.ctag
  data :=
    if cacheMemEnable i s then
      (if i.collide then dataRamNext i s rom else s.dataRam) (lineOf (cacheAddrRead i s))
        (offsetOf (cacheAddrRead i s))
    else s.data
  tagRam := tagRamNext s
  dataRam := dataRamNext i s rom
  bus := Slave.rest i.busAck (offered i s)

end Registers

structure Reset (s : Icache) : Prop where
  state : s.r.state = .flushing
  flushcnt : s.r.flushcnt = 127
  tagMemWen : s.r.tagMemWen = true
  cyc : s.r.cyc = false
  accessQ : s.r.accessQ = false
  enableQ : s.r.enableQ = false
  queuedAddress : s.r.queuedAddress = false
  iwfready : s.r.iwfready = false
  flush : s.r.flush = false
  fault : s.r.fault = false
  bus : s.bus = []

def reset : Icache where
  r :=
    { cyc := false, stb := false, state := .flushing, flushcnt := 127, tagMemWen := true,
      wbaddr := 0, offcnt := 0, offcntWrite := 0, stbcount := 0, accessQ := false,
      queuedAddress := false, saveAddr := 0, lineSave := 0, tagSave := 0, enableQ := false,
      iwfready := false, fault := false, flush := false }
  ctag := ⟨false, 0⟩
  data := 0
  tagRam := fun _ => ⟨false, 0⟩
  dataRam := fun _ _ => 0
  bus := []

theorem reset_reset : Reset reset := by constructor <;> rfl

abbrev run (rom : Word → Word) (s₀ : Icache) (inputs : Nat → IcacheInput) (n : Nat) : Icache :=
  Run.states (fun i s => next i s rom) s₀ inputs n

end Icache

end Xtc
