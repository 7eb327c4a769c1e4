import Xtc.Cache.DcacheControl

/-!
# DcacheData — what the data cache holds, seen against the memory it stands for

Beside the cache runs the memory that its accepted writes make of the initial one.  In each state
the cache and the memory behind it hold that memory between them, up to the write in flight: the one
that is being worked on, or the one that waits at the port and may already be in the content memory.
-/

namespace Xtc

namespace Dcache

open WriteBack (Coherent CoherentOff Holds Entry Write)

variable {t l : Nat}

structure Observed (t l : Nat) where
  cache : Dcache t l
  -- the initial memory under the writes accepted so far
  spec : Address t l → Word
  -- the request accepted last
  last : Option (DcacheRequest t l)
  -- the request that was at the port and not accepted
  held : Option (DcacheRequest t l)

def specNext (spec : Address t l → Word) : Option (DcacheRequest t l) → Address t l → Word
  | some q =>
    if q.we then Function.update spec q.addr (merge q.wmask q.data (spec q.addr)) else spec
  | none => spec

def Observed.next (i : DcacheInput t l) (o : Observed t l) : Observed t l where
  cache := Dcache.next i o.cache
  spec := specNext o.spec (accepted i o.cache)
  last := (accepted i o.cache).or o.last
  held := if stall i o.cache then i.offers else none

def Observed.start (s : Dcache t l) : Observed t l where
  cache := s
  spec := s.mem
  last := none
  held := none

abbrev observed (s₀ : Dcache t l) (inputs : Nat → DcacheInput t l) (n : Nat) : Observed t l :=
  Run.states Observed.next (.start s₀) inputs n

/-- The clocks that keep the data: those that keep the states apart, in which the master holds its
request, and in which none of the following happens.  A write waits at the port, in `directmemory`
or before a flush, whose place holds a dirty line of another tag.  A write makes a clean line dirty
while a request for another tag at the same place is taken.  A write that is not cached is taken
while its line is in the cache, or a read that is not cached while its line is dirty there or gets
so. -/
@[mk_iff] structure Kept (i : DcacheInput t l) (o : Observed t l) : Prop where
  orderly : Orderly i o.cache
  hold : ∀ q ∈ o.held, i.offers = some q
  prewrite : ∀ q ∈ i.offers, q.we = true → q.cached = true →
    (o.cache.r.state = .directmemory ∧ ack i o.cache = false) ∨
      (o.cache.r.state = .idle ∧ o.cache.r.flushReq = true) →
    (o.cache.tmem q.addr.line).valid = true → (o.cache.tmem q.addr.line).dirty = true →
      (o.cache.tmem q.addr.line).tag = q.addr.tag
  dirtyBit : o.cache.r.state = .idle → o.cache.r.req = true → o.cache.r.request.we = true →
    (o.cache.tmem o.cache.r.request.addr.line).dirty = false →
    ∀ q ∈ accepted i o.cache, q.cached = true →
      q.addr.line = o.cache.r.request.addr.line → q.addr.tag = o.cache.r.request.addr.tag
  nocache : ∀ q ∈ accepted i o.cache, q.cached = false →
    (o.cache.tmem q.addr.line).valid = true → (o.cache.tmem q.addr.line).tag = q.addr.tag →
      q.we = false ∧ (o.cache.tmem q.addr.line).dirty = false ∧
        ¬ (o.cache.r.state = .idle ∧ o.cache.r.req = true ∧ o.cache.r.request.we = true ∧
          q.addr.line = o.cache.r.request.addr.line)

/-! ## The states -/

/-- The write a request makes in the memory, and the one it makes in the content memory. -/
def inFlight (q : DcacheRequest t l) : Option (Write (Address t l) Word) :=
  if q.we then some q.write else none

def cacheWrite (q : DcacheRequest t l) : Option (Write (Address t l) Word) :=
  if q.we && q.cached then some q.write else none

def heldWrite (o : Observed t l) : Option (Write (Address t l) Word) := o.held.bind cacheWrite

def written (cm : BitVec l × LineOffset → Word) :
    Option (Write (Address t l) Word) → BitVec l × LineOffset → Word
  | some w => Function.update cm w.addr.slot (w.upd (cm w.addr.slot))
  | none => cm

/-- The request in the registers is the one accepted last, and its write is in the memory shown. -/
structure Pending (o : Observed t l) : Prop where
  last : o.last = some o.cache.r.request
  applied : o.cache.r.request.we = true →
    o.cache.r.request.write.upd (o.spec o.cache.r.request.addr) = o.spec o.cache.r.request.addr

/-- A request that goes past the cache, by the entry of its line: a write finds the line absent, and
a read does not find it dirty. -/
def PassesBy (e : Entry (BitVec t)) (q : DcacheRequest t l) : Prop :=
  Holds (Address.layout t l) e q.addr → q.we = false ∧ e.dirty = false

/-- The idle state with a request: its tag is being looked at, its write is in the content memory
and the word that was there is on the output. -/
structure Looking (o : Observed t l) : Prop where
  pending : Pending o
  valid : o.cache.tmemDoa.valid = (o.cache.tmem o.cache.r.request.addr.line).valid
  tag : o.cache.tmemDoa.tag = (o.cache.tmem o.cache.r.request.addr.line).tag
  -- the dirty bit may be old, but then it does not matter
  dirty : o.cache.r.request.cached = true →
    o.cache.tmemDoa.dirty = (o.cache.tmem o.cache.r.request.addr.line).dirty ∨
      miss o.cache = false
  passesBy : o.cache.r.request.cached = false →
    PassesBy (o.cache.tmem o.cache.r.request.addr.line) o.cache.r.request
  data : ∃ cm, cm o.cache.r.request.addr.slot = o.cache.cmemDoa ∧
    o.cache.cmem = written cm (cacheWrite o.cache.r.request) ∧
    Coherent (Address.layout t l) o.cache.tmem cm o.cache.mem o.spec
      (inFlight o.cache.r.request) (cacheWrite o.cache.r.request)

def Quiet (o : Observed t l) : Prop :=
  Coherent (Address.layout t l) o.cache.tmem o.cache.cmem o.cache.mem o.spec (heldWrite o)
    (heldWrite o)

structure Direct (o : Observed t l) : Prop where
  pending : Pending o
  passesBy : PassesBy (o.cache.tmem o.cache.r.request.addr.line) o.cache.r.request
  coherent : Coherent (Address.layout t l) o.cache.tmem o.cache.cmem o.cache.mem o.spec
    (inFlight o.cache.r.request) (heldWrite o)

structure Recovering (o : Observed t l) : Prop where
  pending : Pending o
  victim : o.cache.tmem o.cache.r.request.addr.line = ⟨true, true, o.cache.r.writebackTag⟩
  data : ∃ cm, cm o.cache.r.request.addr.slot = o.cache.cmemDoa ∧
    o.cache.cmem = written cm (some o.cache.r.request.write) ∧
    Coherent (Address.layout t l) o.cache.tmem cm o.cache.mem o.spec
      (inFlight o.cache.r.request) (cacheWrite o.cache.r.request)

def Swept (s : Dcache t l) : Prop :=
  s.r.flushLineNumber = s.r.fillLineNumber + 1 ∧
    ∀ k : BitVec l, k.toNat ≤ s.r.fillLineNumber.toNat → (s.tmem k).valid = false

/-- A dirty line goes out, to make room or in a flush; a flush has cleared its entry. -/
structure Evicting (o : Observed t l) : Prop where
  missed : o.cache.r.inFlush = false → Pending o
  swept : o.cache.r.inFlush = true → Swept o.cache ∧ o.cache.r.req = false
  coherent : Coherent (Address.layout t l)
    (Function.update o.cache.tmem o.cache.r.fillLineNumber ⟨true, true, o.cache.r.writebackTag⟩)
    o.cache.cmem o.cache.mem o.spec
    (if o.cache.r.inFlush then heldWrite o else inFlight o.cache.r.request)
    (if o.cache.r.inFlush then heldWrite o else inFlight o.cache.r.request)

structure WritingBack (o : Observed t l) (acked : Nat) : Prop extends Evicting o where
  written : ∀ j < acked, o.cache.mem
      ⟨o.cache.r.writebackTag, o.cache.r.fillLineNumber, Slave.ring 0 j⟩ =
    o.cache.cmem (o.cache.r.fillLineNumber, Slave.ring 0 j)

structure Filling (o : Observed t l) (acked : Nat) : Prop where
  pending : Pending o
  off : CoherentOff (Address.layout t l) o.cache.tmem o.cache.cmem o.cache.mem o.spec
    (inFlight o.cache.r.request) (inFlight o.cache.r.request) o.cache.r.fillLineNumber
  current : WriteBack.Current (Address.layout t l) o.cache.mem o.spec (inFlight o.cache.r.request)
    o.cache.r.fillLineNumber
  filled : ∀ j < acked, o.cache.cmem (o.cache.r.fillLineNumber, Slave.ring o.cache.r.reqOffset j) =
    o.cache.mem ⟨o.cache.r.fillTag, o.cache.r.fillLineNumber, Slave.ring o.cache.r.reqOffset j⟩
  -- the word that is wanted was written two clocks ago
  ackQQ : o.cache.r.ackQQ = true → o.cache.cmemDoa = o.cache.mem o.cache.r.request.addr

structure Merging (o : Observed t l) : Prop where
  pending : Pending o
  entry : o.cache.tmem o.cache.r.request.addr.line = ⟨true, true, o.cache.r.request.addr.tag⟩
  coherent : Coherent (Address.layout t l) o.cache.tmem o.cache.cmem o.cache.mem o.spec
    (inFlight o.cache.r.request) (inFlight o.cache.r.request)

structure Settling (o : Observed t l) : Prop where
  pending : Pending o
  holds : Holds (Address.layout t l) (o.cache.tmem o.cache.r.request.addr.line)
    o.cache.r.request.addr
  coherent : Coherent (Address.layout t l) o.cache.tmem o.cache.cmem o.cache.mem o.spec none none

/-- The flush state.  The entry it cleared in the clock before is on the output of the tag
memory. -/
structure Flushing (o : Observed t l) : Prop where
  req : o.cache.r.req = false
  sweep : o.cache.r.fillLineNumber = 0 ∧ o.cache.r.flushLineNumber = 0 ∧
    o.cache.r.inFlush = false ∨ Swept o.cache
  coherent : Coherent (Address.layout t l)
    (if o.cache.r.inFlush then
      Function.update o.cache.tmem o.cache.r.fillLineNumber o.cache.tmemDob else o.cache.tmem)
    o.cache.cmem o.cache.mem o.spec (heldWrite o) (heldWrite o)

inductive Sound (o : Observed t l) : Prop
  | quiet (hstate : o.cache.r.state = .idle) (hreq : o.cache.r.req = false) (h : Quiet o)
  | looking (hstate : o.cache.r.state = .idle) (hreq : o.cache.r.req = true) (h : Looking o)
  | direct (hstate : o.cache.r.state = .directmemory) (h : Direct o)
  | recovering (hstate : o.cache.r.state = .recover) (h : Recovering o)
  | evicting (hstate : o.cache.r.state = .preparewb) (h : Evicting o)
  | writingBack (taken acked : Nat) (hstate : o.cache.r.state = .writeback)
      (hburst : WritebackBurst o.cache taken acked) (h : WritingBack o acked)
  | filling (taken acked : Nat) (hstate : o.cache.r.state = .readline)
      (hburst : FillBurst o.cache taken acked) (h : Filling o acked)
  | merging (hstate : o.cache.r.state = .writeAfterFill) (h : Merging o)
  | settling (hstate : o.cache.r.state = .settle) (h : Settling o)
  | flushing (hstate : o.cache.r.state = .flush) (h : Flushing o)

theorem Reset.sound {s : Dcache t l} (h : Reset s) : Sound (.start s) := by
  refine .quiet h.state h.req ?_
  intro a
  have hnot : ¬ Holds (Address.layout t l) (s.tmem a.line) a :=
    WriteBack.not_holds_of_invalid (h.tmem a.line)
  exact ⟨fun hh => absurd hh hnot, fun hh => absurd hh hnot, fun _ => .of_eq rfl⟩

/-! ## The ports -/

section Ports

variable {i : DcacheInput t l} {s : Dcache t l}

theorem cmem_next_of_id (h : (cmemB i s).upd = id) :
    (next i s).cmem = (cmemA i s).write s.cmem := Ram.Port.write_of_id h _

theorem cmem_next_of_id' (h : (cmemA i s).upd = id) :
    (next i s).cmem = (cmemB i s).write s.cmem := by
  show (cmemB i s).write ((cmemA i s).write s.cmem) = _
  rw [Ram.Port.write_of_id h]

/-- A port that writes what is offered, whether it is accepted or not. -/
theorem write_prewrite {p : Ram.Port (BitVec l × LineOffset) Word}
    (hen : p.en = (i.enable && i.strobe)) (haddr : p.addr = i.request.addr.slot)
    (hupd : p.upd = prewrite i) (cm : BitVec l × LineOffset → Word) :
    p.write cm = written cm (i.offers.bind cacheWrite) := by
  by_cases hon : (i.enable && i.strobe) = true
  · have hoffers : i.offers = some i.request := by
      rw [Bool.and_comm] at hon
      simp [DcacheInput.offers, hon]
    rw [hoffers]
    by_cases hwrite : (i.request.we && i.request.cached) = true
    · rw [Ram.Port.write_of_on (hen.trans hon), haddr, hupd]
      simp only [Option.bind_some, cacheWrite, prewrite, hwrite, if_true, written]
      rfl
    · have hid : p.upd = id := by
        rw [hupd, prewrite, if_neg hwrite]
      rw [Ram.Port.write_of_id hid]
      simp [cacheWrite, hwrite, written]
  · have hoff : (i.enable && i.strobe) = false := by simpa using hon
    have hoffers : i.offers = none := by
      rw [Bool.and_comm] at hoff
      simp [DcacheInput.offers, hoff]
    rw [hoffers, Ram.Port.write_of_off (hen.trans hoff)]
    rfl

end Ports

end Dcache

end Xtc
