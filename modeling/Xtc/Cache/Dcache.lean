import Xtc.Bus.Wishbone
import Xtc.Core.Package
import Xtc.Lib.Ram
import Xtc.Lib.Run
import Xtc.Lib.Slave
import Xtc.Lib.WriteBack

/-!
# Dcache — the data cache `dcache2.vhd`

A direct-mapped write-back cache with lines of 16 words, `t` bits of tag and `l` bits of line
number.  A write goes into the content memory in the clock it is taken, before its tag is looked at;
if it is then found to have hit the dirty line of another tag, the word is put back.  The model
includes the memory behind the bus.  A value the source makes unknown is an input of the clock.
-/

namespace Xtc

open WriteBack (Entry Layout Write)

inductive AccessType
  | wbWa | wt | wbNa | nocache
  deriving DecidableEq, Repr

abbrev LineOffset := BitVec 4

/-- The type `address_type`, by the fields that `address_to_tag` and its companions take. -/
structure Address (t l : Nat) where
  tag : BitVec t
  line : BitVec l
  offset : LineOffset
  deriving DecidableEq

def Address.layout (t l : Nat) : Layout (Address t l) (BitVec t) (BitVec l) LineOffset where
  tag := Address.tag
  line := Address.line
  offset := Address.offset
  ext := by
    rintro ⟨_, _, _⟩ ⟨_, _, _⟩ rfl rfl rfl
    rfl

abbrev Address.slot {t l : Nat} (a : Address t l) : BitVec l × LineOffset := (a.line, a.offset)

/-! ## Requests -/

structure DcacheRequest (t l : Nat) where
  addr : Address t l
  we : Bool
  wmask : BitVec 4
  data : Word
  tag : Word
  accesstype : AccessType
  deriving DecidableEq

namespace DcacheRequest

variable {t l : Nat} (q : DcacheRequest t l)

def cached : Bool := q.accesstype != .nocache

def write : Write (Address t l) Word := ⟨q.addr, merge q.wmask q.data, merge_merge _ _⟩

end DcacheRequest

/-- The signal `mwbo.tag`: a fill names its place, with the bit above it set; a direct access passes
its own tag. -/
inductive BusTag (l : Nat)
  | fill (line : BitVec l) (offset : LineOffset)
  | writeback
  | direct (tag : Word)
  deriving DecidableEq

/-- The signal `mwbi.tag`, as the readline state looks at it. -/
def BusTag.slot {l : Nat} : BusTag l → Option (BitVec l × LineOffset)
  | .fill line offset => some (line, offset)
  | .writeback => none
  | .direct w => if w.getLsbD (l + 4) then some (w.extractLsb' 4 l, w.extractLsb' 0 4) else none

structure BusRequest (t l : Nat) where
  adr : Address t l
  -- `mwbo.sel` and `mwbo.dat` of a write
  store : Option (BitVec 4 × Word)
  tag : BusTag l
  deriving DecidableEq

/-! ## State -/

inductive DcacheState
  | idle | readline | preparewb | writeback | recover | writeAfterFill | settle | flush
  | directmemory
  deriving DecidableEq, Repr

/-- The record `regs_type`, without what nothing reads; `request` is `req_addr` to `req_accesstype`.
-/
structure DcacheRegs (t l : Nat) where
  req : Bool
  request : DcacheRequest t l
  fillOffsetR : LineOffset
  reqOffset : LineOffset
  fillOffsetW : LineOffset
  finishedW : LineOffset
  fillTag : BitVec t
  fillLineNumber : BitVec l
  flushLineNumber : BitVec l
  fillRDone : Bool
  writebackTag : BitVec t
  state : DcacheState
  ackQ : Bool
  ackQQ : Bool
  flushReq : Bool
  inFlush : Bool
  count : Nat

structure DcacheInput (t l : Nat) where
  -- `ci`
  strobe : Bool
  enable : Bool
  flush : Bool
  request : DcacheRequest t l
  -- the bus slave
  busStall : Bool
  busAck : Bool
  -- unknown levels: the bus without an answer, or with the answer to a write
  xSlot : Option (BitVec l × LineOffset)
  xDat : Word
  xTag : Word

structure Dcache (t l : Nat) where
  r : DcacheRegs t l
  tmemDoa : Entry (BitVec t)
  tmemDob : Entry (BitVec t)
  cmemDoa : Word
  cmemDob : Word
  tmem : BitVec l → Entry (BitVec t)
  cmem : BitVec l × LineOffset → Word
  -- the slave: requests it has taken, and the memory
  bus : List (BusRequest t l)
  mem : Address t l → Word

variable {t l : Nat}

def DcacheInput.offers (i : DcacheInput t l) : Option (DcacheRequest t l) :=
  if i.strobe && i.enable then some i.request else none

/-- A clock in which `q` is offered and the slave does not stall. -/
def DcacheInput.offering (q : DcacheRequest t l) (busAck : Bool) : DcacheInput t l where
  strobe := true
  enable := true
  flush := false
  request := q
  busStall := false
  busAck := busAck
  xSlot := none
  xDat := 0
  xTag := 0

def burstwords : Nat := 15

namespace Dcache

section Signals

variable (i : DcacheInput t l) (s : Dcache t l)

def hit : Bool := s.tmemDoa.valid && s.tmemDoa.tag == s.r.request.addr.tag

/-- The idle state finds a miss; an access that is not cached counts as one. -/
def miss : Bool := s.r.req && (!hit s || !s.r.request.cached)

def willBusy : Bool := miss s || s.r.flushReq

/-- The signal `mwbo`, in a clock in which the slave takes it. -/
def busRequest : Option (BusRequest t l) :=
  if i.busStall || s.r.fillRDone then none
  else
    match s.r.state with
    | .directmemory =>
        some { adr := s.r.request.addr
               store := if s.r.request.we then some (s.r.request.wmask, s.r.request.data) else none
               tag := .direct s.r.request.tag }
    | .readline =>
        some { adr := ⟨s.r.fillTag, s.r.fillLineNumber, s.r.fillOffsetR⟩
               store := none
               tag := .fill s.r.fillLineNumber s.r.fillOffsetR }
    | .writeback =>
        some { adr := ⟨s.r.writebackTag, s.r.fillLineNumber, s.r.fillOffsetW⟩
               store := some (15, s.cmemDob)
               tag := .writeback }
    | _ => none

def offered : List (BusRequest t l) := Slave.offered s.bus (busRequest i s)

def answer : Option (BusRequest t l) := Slave.answer i.busAck (offered i s)

def ack : Bool := (answer i s).isSome

/-- The signal `req_last`, which `reqcnt` drives: `lastreq_eq` says that any component with its
contract does. -/
def reqLast : Bool := ack i s && (offered i s).length == 1

def mwbiDat : Word :=
  match answer i s with
  | some q => if q.store.isSome then i.xDat else s.mem q.adr
  | none => i.xDat

def mwbiSlot : Option (BitVec l × LineOffset) :=
  match answer i s with
  | some q => q.tag.slot
  | none => i.xSlot

/-- The readline state has got the last word. -/
def fillEnds : Bool := ack i s && s.r.fillRDone && reqLast i s

def writebackEnds : Bool := reqLast i s && s.r.count == 0

/-- The flush state looks at the entry it has read and cleared. -/
def victimDirty : Bool := s.r.inFlush && s.tmemDob.valid && s.tmemDob.dirty

/-! `co` -/

def stall : Bool :=
  match s.r.state with
  | .idle => willBusy s
  | .directmemory => !ack i s
  | _ => true

def valid : Bool :=
  match s.r.state with
  | .idle => s.r.req && !miss s
  | .directmemory => ack i s
  | .readline => s.r.ackQQ && s.r.finishedW == s.r.reqOffset
  | _ => false

def data : Word := if s.r.state = .directmemory then mwbiDat i s else s.cmemDoa

def tag : Word :=
  if s.r.state = .directmemory then
    match answer i s with
    | some q => (match q.tag with | .direct w => w | _ => i.xTag)
    | none => i.xTag
  else s.r.request.tag

def accepted : Option (DcacheRequest t l) := if stall i s then none else i.offers

end Signals

/-! ## Memory ports -/

section Ports

open Ram (Port)

variable (i : DcacheInput t l) (s : Dcache t l)

def tmemA : Port (BitVec l) (Entry (BitVec t)) where
  en :=
    match s.r.state with
    | .readline => !fillEnds i s
    | .flush => false
    | _ => true
  addr := if s.r.state = .settle then s.r.request.addr.line else i.request.addr.line
  upd := id

def tmemB : Port (BitVec l) (Entry (BitVec t)) :=
  match s.r.state with
  | .idle =>
      -- a hit writes the dirty bit
      { en := s.r.req && !miss s
        addr := s.r.request.addr.line
        upd := if s.r.request.we then fun _ => ⟨true, true, s.r.request.addr.tag⟩ else id }
  | .readline =>
      { en := fillEnds i s
        addr := s.r.fillLineNumber
        upd := fun _ => ⟨s.r.request.we, true, s.r.fillTag⟩ }
  | .flush =>
      { en := true
        addr := s.r.flushLineNumber
        upd := if victimDirty s then id else fun _ => ⟨false, false, s.r.request.addr.tag⟩ }
  | _ => { en := false, addr := s.r.request.addr.line, upd := id }

/-- The write of the request at the port, whether it is taken or not. -/
def prewrite : Word → Word :=
  if i.request.we && i.request.cached then merge i.request.wmask i.request.data else id

def cmemA : Port (BitVec l × LineOffset) Word :=
  match s.r.state with
  | .idle =>
      { en := i.enable && i.strobe && !miss s, addr := i.request.addr.slot, upd := prewrite i }
  | .directmemory =>
      { en := i.enable && i.strobe, addr := i.request.addr.slot, upd := prewrite i }
  | .recover => { en := i.enable && i.strobe, addr := i.request.addr.slot, upd := id }
  | .readline | .settle => { en := true, addr := s.r.request.addr.slot, upd := id }
  | .preparewb | .writeback | .writeAfterFill | .flush =>
      { en := false, addr := i.request.addr.slot, upd := id }

def cmemB : Port (BitVec l × LineOffset) Word :=
  match s.r.state with
  | .idle => { en := s.r.req && !s.r.flushReq, addr := s.r.request.addr.slot, upd := id }
  | .directmemory | .settle => { en := s.r.req, addr := s.r.request.addr.slot, upd := id }
  | .readline =>
      { en := (mwbiSlot i s).isSome
        addr := (mwbiSlot i s).getD s.r.request.addr.slot
        upd := if ack i s then fun _ => mwbiDat i s else id }
  | .recover => { en := true, addr := s.r.request.addr.slot, upd := fun _ => s.cmemDoa }
  | .preparewb => { en := true, addr := (s.r.fillLineNumber, s.r.fillOffsetR), upd := id }
  | .writeback =>
      { en := !i.busStall, addr := (s.r.fillLineNumber, s.r.fillOffsetR), upd := id }
  | .writeAfterFill =>
      { en := true
        addr := s.r.request.addr.slot
        upd := merge s.r.request.wmask s.r.request.data }
  | .flush => { en := false, addr := s.r.request.addr.slot, upd := id }

end Ports

/-! ## Registers -/

section Registers

variable (i : DcacheInput t l) (s : Dcache t l)

def defaults : DcacheRegs t l := { s.r with ackQ := false, ackQQ := false }

/-- The request at the port is queued; without one the address stays. -/
def accept (w : DcacheRegs t l) : DcacheRegs t l :=
  let taken := i.strobe && i.enable
  { w with
    req := taken
    request := { i.request with addr := if taken then i.request.addr else w.request.addr }
    reqOffset := if taken then i.request.addr.offset else w.reqOffset }

def missNext (w : DcacheRegs t l) : DcacheRegs t l :=
  let w := { w with
    fillTag := s.r.request.addr.tag
    fillLineNumber := s.r.request.addr.line
    count := burstwords
    fillRDone := false
    fillOffsetR := s.r.reqOffset
    fillOffsetW := s.r.reqOffset }
  if s.tmemDoa.valid then
    if s.tmemDoa.dirty then
      { w with
        writebackTag := s.tmemDoa.tag
        fillOffsetR := 0
        fillOffsetW := 0
        state := if s.r.request.we then .recover else .preparewb }
    else { w with state := .readline }
  else if s.r.request.we then
    match s.r.request.accesstype with
    | .wbWa => { w with state := .readline }
    | .wbNa | .wt => { w with state := .directmemory }
    | .nocache => w
  else { w with state := .readline }

def idleNext : DcacheRegs t l :=
  let w := defaults s
  let w := if miss s then
      if s.r.request.cached then missNext s w
      else { w with state := .directmemory, fillRDone := false }
    else w
  let w := if s.r.flushReq then
      { w with state := .flush, fillLineNumber := 0, flushLineNumber := 0 }
    else w
  if willBusy s then w else accept i w

def directmemoryNext : DcacheRegs t l :=
  let w := { defaults s with fillRDone := s.r.fillRDone || !i.busStall }
  if ack i s then { accept i w with state := .idle } else w

def takes : Bool := !i.busStall && !s.r.fillRDone

def readlineNext : DcacheRegs t l :=
  { defaults s with
    req := s.r.req && !(s.r.ackQQ && s.r.finishedW == s.r.reqOffset)
    fillRDone := s.r.fillRDone || (takes i s && s.r.count == 0)
    fillOffsetR := if takes i s && s.r.count != 0 then s.r.fillOffsetR + 1 else s.r.fillOffsetR
    count := if takes i s && s.r.count != 0 then s.r.count - 1 else s.r.count
    fillOffsetW := if ack i s then s.r.fillOffsetW + 1 else s.r.fillOffsetW
    finishedW := if ack i s then s.r.fillOffsetW else s.r.finishedW
    ackQ := ack i s
    ackQQ := s.r.ackQ
    state :=
      if fillEnds i s then (if s.r.request.we then .writeAfterFill else .settle) else s.r.state }

def writebackNext : DcacheRegs t l :=
  let w := { defaults s with
    fillRDone := s.r.fillRDone || (takes i s && s.r.count == 0)
    fillOffsetR := if takes i s && s.r.count != 0 then s.r.fillOffsetR + 1 else s.r.fillOffsetR
    fillOffsetW := if takes i s && s.r.count != 0 then s.r.fillOffsetR else s.r.fillOffsetW
    count := if takes i s && s.r.count != 0 then s.r.count - 1 else s.r.count }
  if writebackEnds i s then
    if s.r.inFlush then { w with state := .flush, inFlush := false }
    else
      { w with
        fillOffsetR := s.r.reqOffset
        fillOffsetW := s.r.reqOffset
        fillRDone := false
        count := burstwords
        state := .readline }
  else w

def flushNext : DcacheRegs t l :=
  let w := { defaults s with
    flushLineNumber := s.r.flushLineNumber + 1
    fillOffsetR := 0
    inFlush := true
    flushReq := false
    fillOffsetW := 0 }
  if victimDirty s then
    { w with
      writebackTag := s.tmemDob.tag
      flushLineNumber := s.r.flushLineNumber
      fillRDone := false
      state := .preparewb }
  else
    let w := { w with fillLineNumber := s.r.flushLineNumber }
    if s.r.fillLineNumber = BitVec.allOnes l then { w with state := .idle, inFlush := false } else w

def caseNext : DcacheRegs t l :=
  match s.r.state with
  | .idle => idleNext i s
  | .directmemory => directmemoryNext i s
  | .readline => readlineNext i s
  | .recover => { defaults s with fillRDone := false, state := .preparewb }
  | .writeback => writebackNext i s
  | .preparewb =>
      { defaults s with
        fillOffsetR := s.r.fillOffsetR + 1, count := burstwords, state := .writeback }
  | .writeAfterFill => { defaults s with state := .settle }
  | .settle => { defaults s with state := .idle }
  | .flush => flushNext s

def regsNext : DcacheRegs t l :=
  { caseNext i s with flushReq := i.flush || (caseNext i s).flushReq }

def memNext : Address t l → Word :=
  match answer i s with
  | some q =>
      match q.store with
      | some (m, d) => Function.update s.mem q.adr (merge m d (s.mem q.adr))
      | none => s.mem
  | none => s.mem

def next : Dcache t l where
  r := regsNext i s
  tmemDoa := (tmemA i s).read s.tmem s.tmemDoa
  tmemDob := (tmemB i s).read s.tmem s.tmemDob
  cmemDoa := (cmemA i s).read s.cmem s.cmemDoa
  cmemDob := (cmemB i s).read s.cmem s.cmemDob
  tmem := Ram.next (tmemA i s) (tmemB i s) s.tmem
  cmem := Ram.next (cmemA i s) (cmemB i s) s.cmem
  bus := Slave.rest i.busAck (offered i s)
  mem := memNext i s

end Registers

/-- What reset writes; the tag memory powers up with no entry. -/
structure Reset (s : Dcache t l) : Prop where
  state : s.r.state = .idle
  req : s.r.req = false
  flushReq : s.r.flushReq = true
  inFlush : s.r.inFlush = false
  tmem : ∀ k, (s.tmem k).valid = false
  bus : s.bus = []

/-- A state after reset, with what reset does not write set to zero. -/
def reset (mem : Address t l → Word) : Dcache t l where
  r :=
    { req := false
      request := ⟨⟨0, 0, 0⟩, false, 0, 0, 0, .nocache⟩
      fillOffsetR := 0
      reqOffset := 0
      fillOffsetW := 0
      finishedW := 0
      fillTag := 0
      fillLineNumber := 0
      flushLineNumber := 0
      fillRDone := false
      writebackTag := 0
      state := .idle
      ackQ := false
      ackQQ := false
      flushReq := true
      inFlush := false
      count := 0 }
  tmemDoa := ⟨false, false, 0⟩
  tmemDob := ⟨false, false, 0⟩
  cmemDoa := 0
  cmemDob := 0
  tmem := fun _ => ⟨false, false, 0⟩
  cmem := fun _ => 0
  bus := []
  mem := mem

theorem reset_reset (mem : Address t l → Word) : Reset (reset mem) :=
  ⟨rfl, rfl, rfl, rfl, fun _ => rfl, rfl⟩

abbrev run (s₀ : Dcache t l) (inputs : Nat → DcacheInput t l) (n : Nat) : Dcache t l :=
  Run.states next s₀ inputs n

/-! ## `reqcnt` -/

section Reqcnt

variable {ρ : Type} (c : Reqcnt ρ) (s₀ : Dcache t l) (inputs : Nat → DcacheInput t l)

/-- The registers of `reqcnt_inst`.  A request that is stalled is not in `busRequest`. -/
def reqcnt : Nat → ρ
  | 0 => c.reset
  | n + 1 =>
      c.next (busRequest (inputs n) (run s₀ inputs n)).isSome true false
        (ack (inputs n) (run s₀ inputs n)) (reqcnt n)

variable {count : ρ → Nat}

theorem length_offered (i : DcacheInput t l) (s : Dcache t l) :
    (offered i s).length = s.bus.length + ((busRequest i s).isSome && true && !false).toNat := by
  rw [offered, Slave.offered, List.length_append]
  cases busRequest i s <;> rfl

theorem count_reqcnt (hc : c.Counts count) (h : Reset s₀) (n : Nat) :
    count (reqcnt c s₀ inputs n) = (run s₀ inputs n).bus.length := by
  induction n with
  | zero => exact hc.reset.trans (congrArg List.length h.bus).symm
  | succ n ih =>
    set i := inputs n
    set s := run s₀ inputs n
    have hlen := length_offered i s
    show count (c.next (busRequest i s).isSome true false (ack i s) (reqcnt c s₀ inputs n)) =
      (Slave.rest i.busAck (offered i s)).length
    cases hanswer : answer i s with
    | none =>
      have hack : ack i s = false := by rw [ack, hanswer]; rfl
      rw [hc.next _ _ _ _ _ (by simp [hack]), ih, ← hlen, hack,
        Slave.rest_of_answer_none hanswer]
      rfl
    | some q =>
      have hack : ack i s = true := by rw [ack, hanswer]; rfl
      have hcons := congrArg List.length (Slave.requests_of_answer hanswer)
      rw [List.length_cons] at hcons
      rw [hc.next _ _ _ _ _ (by omega), ih, ← hlen, hack, hcons]
      rfl

/-- Any component that counts drives `req_last` as the model has it. -/
theorem lastreq_eq (hc : c.Counts count) (h : Reset s₀) (n : Nat) :
    c.lastreq (busRequest (inputs n) (run s₀ inputs n)).isSome true false
      (ack (inputs n) (run s₀ inputs n)) (reqcnt c s₀ inputs n) =
      reqLast (inputs n) (run s₀ inputs n) := by
  rw [hc.lastreq, count_reqcnt c s₀ inputs hc h, ← length_offered, reqLast]

end Reqcnt

end Dcache

end Xtc
