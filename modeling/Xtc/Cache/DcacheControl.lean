import Xtc.Cache.Dcache

/-!
# DcacheControl — the states of the data cache and what is on the bus in each

Bursts of sixteen words go out in two states, and a state is left with nothing outstanding: a fill
ends on its last answer, and so does a write-back, unless the slave stalls the last word in the very
clock in which it answers the word before.
-/

namespace Xtc

namespace Dcache

variable {t l : Nat}

def directRequest (s : Dcache t l) : BusRequest t l where
  adr := s.r.request.addr
  store := if s.r.request.we then some (s.r.request.wmask, s.r.request.data) else none
  tag := .direct s.r.request.tag

/-- The `j`-th request of a fill, which begins with the word that is wanted. -/
def fillRequest (s : Dcache t l) (j : Nat) : BusRequest t l where
  adr := ⟨s.r.fillTag, s.r.fillLineNumber, Slave.ring s.r.reqOffset j⟩
  store := none
  tag := .fill s.r.fillLineNumber (Slave.ring s.r.reqOffset j)

def writebackRequest (s : Dcache t l) (j : Nat) : BusRequest t l where
  adr := ⟨s.r.writebackTag, s.r.fillLineNumber, Slave.ring 0 j⟩
  store := some (15, s.cmem (s.r.fillLineNumber, Slave.ring 0 j))
  tag := .writeback

/-- A fill with `taken` words asked for and `acked` of them written. -/
structure FillBurst (s : Dcache t l) (taken acked : Nat) : Prop where
  order : acked ≤ taken ∧ taken ≤ 16
  asking : s.r.fillRDone = false →
    taken < 16 ∧ s.r.count + taken = 15 ∧ s.r.fillOffsetR = Slave.ring s.r.reqOffset taken
  asked : s.r.fillRDone = true → taken = 16
  bus : s.bus = Slave.burst (fillRequest s) acked taken
  offsetW : s.r.fillOffsetW = Slave.ring s.r.reqOffset acked
  finished : 1 ≤ acked → s.r.finishedW = Slave.ring s.r.reqOffset (acked - 1)
  ackQ : s.r.ackQ = true → 1 ≤ acked
  ackQQ : s.r.ackQQ = true → 1 ≤ acked ∧ (s.r.ackQ = true → 2 ≤ acked)
  -- the request was acknowledged, which is done with the first word and not again
  served : s.r.req = false → 1 ≤ acked ∧ (s.r.ackQ = false ∧ s.r.ackQQ = false ∨ 2 ≤ acked)

/-- A write-back; the word to go out is on the output of the content memory. -/
structure WritebackBurst (s : Dcache t l) (taken acked : Nat) : Prop where
  order : acked ≤ taken ∧ taken ≤ 16 ∧ acked < 16
  asking : s.r.fillRDone = false →
    taken < 16 ∧ s.r.count + taken = 15 ∧ s.r.fillOffsetW = Slave.ring 0 taken ∧
      s.r.fillOffsetR = Slave.ring 0 (taken + 1) ∧
      s.cmemDob = s.cmem (s.r.fillLineNumber, Slave.ring 0 taken)
  asked : s.r.fillRDone = true → taken = 16 ∧ s.r.count = 0
  bus : s.bus = Slave.burst (writebackRequest s) acked taken

/-- A cached request was not found, and its line is being brought in. -/
structure Missed (s : Dcache t l) : Prop where
  inFlush : s.r.inFlush = false
  cached : s.r.request.cached = true
  offset : s.r.reqOffset = s.r.request.addr.offset
  line : s.r.fillLineNumber = s.r.request.addr.line
  tag : s.r.fillTag = s.r.request.addr.tag

/-- A flush is going on; a request may wait for its end. -/
structure Sweeping (s : Dcache t l) : Prop where
  inFlush : s.r.inFlush = true
  offset : s.r.req = true → s.r.reqOffset = s.r.request.addr.offset

inductive Control (s : Dcache t l) : Prop
  | idle (hstate : s.r.state = .idle) (hflush : s.r.inFlush = false) (hbus : s.bus = [])
      (hoffset : s.r.req = true → s.r.reqOffset = s.r.request.addr.offset)
  | directmemory (hstate : s.r.state = .directmemory) (hflush : s.r.inFlush = false)
      (hreq : s.r.req = true)
      (hbus : s.bus = if s.r.fillRDone then [directRequest s] else [])
  | recover (hstate : s.r.state = .recover) (hmissed : Missed s) (hreq : s.r.req = true)
      (hwe : s.r.request.we = true)
      (hbus : s.bus = []) (hoffsets : s.r.fillOffsetR = 0 ∧ s.r.fillOffsetW = 0)
  | preparewb (hstate : s.r.state = .preparewb)
      (hwhy : Sweeping s ∨ Missed s ∧ s.r.req = true) (hbus : s.bus = [])
      (hoffsets : s.r.fillOffsetR = 0 ∧ s.r.fillOffsetW = 0) (hdone : s.r.fillRDone = false)
  | writeback (taken acked : Nat) (hstate : s.r.state = .writeback)
      (hwhy : Sweeping s ∨ Missed s ∧ s.r.req = true) (hburst : WritebackBurst s taken acked)
  | readline (taken acked : Nat) (hstate : s.r.state = .readline) (hmissed : Missed s)
      (hburst : FillBurst s taken acked)
  | writeAfterFill (hstate : s.r.state = .writeAfterFill) (hmissed : Missed s)
      (hwe : s.r.request.we = true) (hbus : s.bus = [])
  | settle (hstate : s.r.state = .settle) (hmissed : Missed s) (hbus : s.bus = [])
  | flush (hstate : s.r.state = .flush)
      (hoffset : s.r.req = true → s.r.reqOffset = s.r.request.addr.offset) (hbus : s.bus = [])

/-- The clocks that keep the states apart: a flush begins with no request waiting, and the slave
does not stall the last word of a write-back while it answers the only other one. -/
@[mk_iff] structure Orderly (i : DcacheInput t l) (s : Dcache t l) : Prop where
  flush : s.r.state = .idle → s.r.flushReq = true → s.r.req = false
  writeback : s.r.state = .writeback → writebackEnds i s = true → s.r.fillRDone = false →
    i.busStall = false

theorem Reset.control {s : Dcache t l} (h : Reset s) : Control s := by
  refine .idle h.state h.inFlush h.bus ?_
  intro hreq
  rw [h.req] at hreq
  cases hreq

/-! ## The bus -/

section Bus

variable {i : DcacheInput t l} {s : Dcache t l}

def OnBus (s : Dcache t l) : Prop :=
  s.r.state = .directmemory ∨ s.r.state = .readline ∨ s.r.state = .writeback

theorem bus_quiet (hstate : ¬ OnBus s) (hbus : s.bus = []) :
    answer i s = none ∧ (next i s).bus = [] ∧ (next i s).mem = s.mem := by
  have hreq : busRequest i s = none := by
    unfold OnBus at hstate
    cases hs : s.r.state <;> simp_all [busRequest]
  have hoffered : offered i s = [] := by simp [offered, hreq, hbus]
  have hanswer : answer i s = none := by simp [answer, hoffered]
  refine ⟨hanswer, ?_, ?_⟩
  · show Slave.rest i.busAck (offered i s) = []
    simp [hoffered]
  · show memNext i s = s.mem
    simp [memNext, hanswer]

theorem r_next_of {w : DcacheRegs t l} (h : caseNext i s = w) :
    (next i s).r = { w with flushReq := i.flush || w.flushReq } := by
  rw [← h]
  rfl

end Bus

/-! ## The tag memory -/

section Tags

variable {i : DcacheInput t l} {s : Dcache t l}

theorem tmem_next : (next i s).tmem = (tmemB i s).write s.tmem := by
  show (tmemB i s).write ((tmemA i s).write s.tmem) = _
  rw [Ram.Port.write_of_id (p := tmemA i s) rfl]

theorem tmem_next_busy (h : s.r.state ≠ .idle) (h' : s.r.state ≠ .readline)
    (h'' : s.r.state ≠ .flush) : (next i s).tmem = s.tmem := by
  rw [tmem_next, Ram.Port.write_of_off]
  cases hs : s.r.state <;> simp_all [tmemB]

theorem tmem_next_readline (hstate : s.r.state = .readline) (hends : fillEnds i s = false) :
    (next i s).tmem = s.tmem := by
  rw [tmem_next, Ram.Port.write_of_off]
  simp [tmemB, hstate, hends]

theorem tmem_next_filled (hstate : s.r.state = .readline) (hends : fillEnds i s = true) :
    (next i s).tmem =
      Function.update s.tmem s.r.fillLineNumber ⟨s.r.request.we, true, s.r.fillTag⟩ := by
  have hB : (tmemB i s).en = true := by simp [tmemB, hstate, hends]
  rw [tmem_next, Ram.Port.write_of_on hB]
  simp [tmemB, hstate]

theorem tmem_next_victim (hstate : s.r.state = .flush) (hdirty : victimDirty s = true) :
    (next i s).tmem = s.tmem := by
  rw [tmem_next, Ram.Port.write_of_id]
  simp [tmemB, hstate, hdirty]

theorem tmem_next_clears (hstate : s.r.state = .flush) (hdirty : victimDirty s = false) :
    (next i s).tmem = Function.update s.tmem s.r.flushLineNumber
      ⟨false, false, s.r.request.addr.tag⟩ := by
  have hB : (tmemB i s).en = true := by simp [tmemB, hstate]
  rw [tmem_next, Ram.Port.write_of_on hB]
  simp [tmemB, hstate, hdirty]

end Tags

/-! ## A fill -/

section Fill

variable {i : DcacheInput t l} {s : Dcache t l} {taken acked : Nat}

theorem r_next_readline (hstate : s.r.state = .readline) : (next i s).r =
    { readlineNext i s with flushReq := i.flush || s.r.flushReq } := by
  rw [r_next_of (w := readlineNext i s) (by simp [caseNext, hstate])]
  rfl

theorem fillRequest_next (hstate : s.r.state = .readline) :
    fillRequest (next i s) = fillRequest s := by
  funext j
  rw [fillRequest, r_next_readline hstate]
  rfl

structure FillStart (s : Dcache t l) : Prop where
  req : s.r.req = true
  done : s.r.fillRDone = false
  count : s.r.count = 15
  offsets : s.r.fillOffsetR = s.r.reqOffset ∧ s.r.fillOffsetW = s.r.reqOffset
  ackQ : s.r.ackQ = false
  ackQQ : s.r.ackQQ = false

theorem FillBurst.start (h : FillStart s) (hbus : s.bus = []) : FillBurst s 0 0 := by
  constructor
  case order => omega
  case asking =>
    intro _
    exact ⟨by omega, h.count, by rw [h.offsets.1, Slave.ring_zero]⟩
  case bus => rw [hbus, Slave.burst_self]
  case offsetW => rw [h.offsets.2, Slave.ring_zero]
  case finished => omega
  all_goals simp [h.done, h.ackQ, h.ackQQ, h.req]

theorem FillBurst.offered (h : FillBurst s taken acked) (hstate : s.r.state = .readline) :
    ∃ taken', taken ≤ taken' ∧ taken' ≤ 16 ∧
      Dcache.offered i s = Slave.burst (fillRequest s) acked taken' ∧
      ((readlineNext i s).fillRDone = false →
        taken' < 16 ∧ (readlineNext i s).count + taken' = 15 ∧
          (readlineNext i s).fillOffsetR = Slave.ring s.r.reqOffset taken') ∧
      ((readlineNext i s).fillRDone = true → taken' = 16) := by
  have horder := h.order
  by_cases htakes : takes i s = true
  · obtain ⟨hstall, hdone⟩ : i.busStall = false ∧ s.r.fillRDone = false := by
      simpa [takes] using htakes
    obtain ⟨hlt, hcount, hoff⟩ := h.asking hdone
    have hrequest : busRequest i s = some (fillRequest s taken) := by
      simp [busRequest, hstall, hdone, hstate, fillRequest, hoff]
    refine ⟨taken + 1, by omega, by omega, ?_, ?_, ?_⟩
    · rw [Dcache.offered, hrequest, h.bus, Slave.offered_burst _ horder.1]
    · intro hdone'
      have hne : s.r.count ≠ 0 := by
        intro h0
        simp [readlineNext, htakes, h0] at hdone'
      have hcount' : (readlineNext i s).count = s.r.count - 1 := by
        simp [readlineNext, htakes, hne]
      have hoff' : (readlineNext i s).fillOffsetR = s.r.fillOffsetR + 1 := by
        simp [readlineNext, htakes, hne]
      rw [hcount', hoff', hoff, Slave.ring_succ]
      exact ⟨by omega, by omega, rfl⟩
    · intro hdone'
      have h0 : s.r.count = 0 := by
        simpa [readlineNext, htakes, hdone] using hdone'
      omega
  · have hrequest : busRequest i s = none := by
      cases hstall : i.busStall <;> cases hdone : s.r.fillRDone <;>
        simp_all [takes, busRequest]
    refine ⟨taken, le_refl _, horder.2, ?_, ?_, ?_⟩
    · rw [Dcache.offered, hrequest, Slave.offered_none, h.bus]
    · intro hdone'
      have hdone : s.r.fillRDone = false := by simpa [readlineNext, htakes] using hdone'
      simpa [readlineNext, htakes] using h.asking hdone
    · intro hdone'
      have hdone : s.r.fillRDone = true := by simpa [readlineNext, htakes] using hdone'
      exact h.asked hdone

/-- The word that is wanted is acknowledged two clocks after it came, if the next has not come in
between. -/
theorem FillBurst.acknowledges (h : FillBurst s taken acked) (hack : s.r.ackQQ = true)
    (hfirst : s.r.finishedW = s.r.reqOffset) :
    acked = 1 ∧ s.r.ackQ = false ∧ s.r.req = true := by
  obtain ⟨hone, htwo⟩ := h.ackQQ hack
  have hring := (h.finished hone).symm.trans hfirst
  have hacked : acked - 1 = 0 := Slave.ring_eq_self (by have := h.order; omega) hring
  have hackQ : s.r.ackQ = false := by
    by_contra hyes
    have := htwo (by simpa using hyes)
    omega
  refine ⟨by omega, hackQ, ?_⟩
  by_contra hno
  rcases (h.served (by simpa using hno)).2 with ⟨-, hno'⟩ | hge
  · rw [hack] at hno'
    cases hno'
  · omega

theorem FillBurst.served_next (h : FillBurst s taken acked)
    (hreq : (readlineNext i s).req = false) :
    1 ≤ acked + (if ack i s then 1 else 0) ∧
      (ack i s = false ∧ s.r.ackQ = false ∨ 2 ≤ acked + (if ack i s then 1 else 0)) := by
  have hcase : 1 ≤ acked ∧ (s.r.ackQ = false ∨ 2 ≤ acked) := by
    cases hreq' : s.r.req with
    | false =>
      obtain ⟨hone, hlate⟩ := h.served hreq'
      exact ⟨hone, hlate.imp_left And.left⟩
    | true =>
      obtain ⟨hack, hfirst⟩ : s.r.ackQQ = true ∧ s.r.finishedW = s.r.reqOffset := by
        simpa [readlineNext, hreq'] using hreq
      obtain ⟨hone, hackQ, -⟩ := h.acknowledges hack hfirst
      exact ⟨by omega, .inl hackQ⟩
  obtain ⟨hone, hlate⟩ := hcase
  cases hack : ack i s with
  | true => exact ⟨by simp, .inr (by simpa using hone)⟩
  | false => exact ⟨by simpa using hone, hlate.imp (fun hackQ => ⟨rfl, hackQ⟩) (by simp)⟩

/-- A clock of a fill: what is asked for and answered goes on by one at most, and the fill ends on
the sixteenth answer. -/
theorem FillBurst.step (h : FillBurst s taken acked) (hstate : s.r.state = .readline) :
    ∃ taken' acked', acked' = acked + (if ack i s then 1 else 0) ∧
      FillBurst (next i s) taken' acked' ∧
      (∀ q, answer i s = some q → q = fillRequest s acked) ∧
      (fillEnds i s = true → acked' = 16 ∧ (next i s).bus = []) := by
  obtain ⟨taken', hle, hle16, hoffered, hasking, hasked⟩ := h.offered (i := i) hstate
  have horder := h.order
  have hr := r_next_readline (i := i) hstate
  have hreq := fillRequest_next (i := i) hstate
  have hmake : ∀ acked', acked' = acked + (if ack i s then 1 else 0) → acked' ≤ taken' →
      Slave.rest i.busAck (Dcache.offered i s) = Slave.burst (fillRequest s) acked' taken' →
      FillBurst (next i s) taken' acked' := by
    intro acked' hacked' hle' hrest
    constructor
    case order => exact ⟨hle', hle16⟩
    case asking => rw [hr]; exact hasking
    case asked => rw [hr]; exact hasked
    case bus => rw [hreq]; exact hrest
    case offsetW =>
      rw [hr, hacked']
      show (if ack i s then s.r.fillOffsetW + 1 else s.r.fillOffsetW) = Slave.ring s.r.reqOffset _
      rw [h.offsetW]
      cases ack i s
      · rfl
      · exact Slave.ring_succ _ _
    case finished =>
      intro hone
      rw [hr]
      show (if ack i s then s.r.fillOffsetW else s.r.finishedW) = Slave.ring s.r.reqOffset _
      cases hack : ack i s with
      | true =>
        have : acked' - 1 = acked := by simp [hacked', hack]
        rw [this]
        exact h.offsetW
      | false =>
        have : acked' = acked := by simp [hacked', hack]
        rw [this] at hone ⊢
        exact h.finished hone
    case ackQ =>
      rw [hr]
      intro hack
      have hack : ack i s = true := hack
      simp [hacked', hack]
    case ackQQ =>
      rw [hr]
      intro hackQ
      have hone := h.ackQ hackQ
      refine ⟨by omega, fun hack => ?_⟩
      have hack : ack i s = true := hack
      simp [hacked', hack, hone]
    case served =>
      rw [hr, hacked']
      exact fun hreq' => h.served_next hreq'
  cases hanswer : answer i s with
  | none =>
    have hack : ack i s = false := by simp [ack, hanswer]
    refine ⟨taken', acked, by simp [hack], hmake acked (by simp [hack]) (by omega) ?_, ?_, ?_⟩
    · rw [Slave.rest_of_answer_none hanswer, hoffered]
    · intro q hq
      cases hq
    · intro hends
      simp [fillEnds, hack] at hends
  | some q =>
    have hack : ack i s = true := by simp [ack, hanswer]
    have hburst := hanswer
    rw [answer, hoffered] at hburst
    obtain ⟨hlt, hq, hrest⟩ := Slave.answer_burst hburst
    rw [← hoffered] at hrest
    refine ⟨taken', acked + 1, by simp [hack], hmake _ (by simp [hack]) (by omega) hrest, ?_, ?_⟩
    · rintro q' ⟨⟩
      exact hq
    · intro hends
      obtain ⟨hdone, hlen⟩ : s.r.fillRDone = true ∧ (Dcache.offered i s).length = 1 := by
        simpa [fillEnds, reqLast, hack] using hends
      rw [hoffered, Slave.length_burst] at hlen
      have h16 := h.asked hdone
      have hacked : acked + 1 = 16 := by omega
      have htaken : taken' = 16 := by omega
      refine ⟨hacked, ?_⟩
      show Slave.rest i.busAck (Dcache.offered i s) = []
      rw [hrest, htaken, hacked, Slave.burst_self]

end Fill

/-! ## A write-back -/

section Writeback

variable {i : DcacheInput t l} {s : Dcache t l} {taken acked : Nat}

theorem cmem_next_writeback (hstate : s.r.state = .writeback) : (next i s).cmem = s.cmem := by
  show (cmemB i s).write ((cmemA i s).write s.cmem) = s.cmem
  have hA : (cmemA i s).en = false := by simp [cmemA, hstate]
  have hB : (cmemB i s).upd = id := by simp [cmemB, hstate]
  rw [Ram.Port.write_of_id hB, Ram.Port.write_of_off hA]

theorem r_next_writeback (hstate : s.r.state = .writeback) (hends : writebackEnds i s = false) :
    (next i s).r =
      { defaults s with
        fillRDone := s.r.fillRDone || (takes i s && s.r.count == 0)
        fillOffsetR := if takes i s && s.r.count != 0 then s.r.fillOffsetR + 1 else s.r.fillOffsetR
        fillOffsetW := if takes i s && s.r.count != 0 then s.r.fillOffsetR else s.r.fillOffsetW
        count := if takes i s && s.r.count != 0 then s.r.count - 1 else s.r.count
        flushReq := i.flush || s.r.flushReq } := by
  rw [r_next_of (w := writebackNext i s) (by simp [caseNext, hstate]), writebackNext, hends]
  rfl

/-- The word at the bus is the next one of the line. -/
theorem WritebackBurst.request (h : WritebackBurst s taken acked)
    (hstate : s.r.state = .writeback) :
    busRequest i s = if takes i s then some (writebackRequest s taken) else none := by
  by_cases htakes : takes i s = true
  · obtain ⟨hstall, hdone⟩ : i.busStall = false ∧ s.r.fillRDone = false := by
      simpa [takes] using htakes
    obtain ⟨-, -, hoffW, -, hdob⟩ := h.asking hdone
    rw [if_pos htakes]
    simp [busRequest, hstall, hdone, hstate, writebackRequest, hoffW, hdob]
  · rw [if_neg htakes]
    cases hstall : i.busStall <;> cases hdone : s.r.fillRDone <;> simp_all [takes, busRequest]

/-- The requests of a write-back go out in order, each with its word of the line. -/
theorem WritebackBurst.offered (h : WritebackBurst s taken acked)
    (hstate : s.r.state = .writeback) :
    ∃ taken', taken ≤ taken' ∧ taken' ≤ 16 ∧ (takes i s = true → taken' = taken + 1) ∧
      (takes i s = false → taken' = taken) ∧
      Dcache.offered i s = Slave.burst (writebackRequest s) acked taken' := by
  have horder := h.order
  have hrequest := h.request (i := i) hstate
  by_cases htakes : takes i s = true
  · obtain ⟨-, hdone⟩ : i.busStall = false ∧ s.r.fillRDone = false := by
      simpa [takes] using htakes
    have hlt := (h.asking hdone).1
    rw [if_pos htakes] at hrequest
    refine ⟨taken + 1, by omega, by omega, fun _ => rfl, fun hno => ?_, ?_⟩
    · rw [htakes] at hno
      cases hno
    · rw [Dcache.offered, hrequest, h.bus, Slave.offered_burst _ horder.1]
  · rw [if_neg htakes] at hrequest
    refine ⟨taken, le_refl _, horder.2.1, fun hyes => absurd hyes htakes, fun _ => rfl, ?_⟩
    rw [Dcache.offered, hrequest, Slave.offered_none, h.bus]

/-- The words are answered in order. -/
theorem WritebackBurst.answered (h : WritebackBurst s taken acked)
    (hstate : s.r.state = .writeback) {q : BusRequest t l} (hq : answer i s = some q) :
    q = writebackRequest s acked := by
  obtain ⟨taken', -, -, -, -, hoffered⟩ := h.offered (i := i) hstate
  rw [answer, hoffered] at hq
  exact (Slave.answer_burst hq).2.1

theorem WritebackBurst.drained (h : WritebackBurst s taken acked) (hstate : s.r.state = .writeback)
    (hends : writebackEnds i s = true) :
    (∃ q, answer i s = some q) ∧ (next i s).bus = [] := by
  obtain ⟨taken', -, -, -, -, hoffered⟩ := h.offered (i := i) hstate
  obtain ⟨⟨hack, hlen⟩, -⟩ : (ack i s = true ∧ (Dcache.offered i s).length = 1) ∧
      s.r.count = 0 := by simpa [writebackEnds, reqLast] using hends
  obtain ⟨q, hq⟩ : ∃ q, answer i s = some q := Option.isSome_iff_exists.mp hack
  refine ⟨⟨q, hq⟩, ?_⟩
  have hburst := hq
  rw [answer, hoffered] at hburst
  have hrest := (Slave.answer_burst hburst).2.2
  rw [hoffered, Slave.length_burst] at hlen
  have htaken : taken' = acked + 1 := by omega
  show Slave.rest i.busAck (Dcache.offered i s) = []
  rw [hoffered, hrest, htaken, Slave.burst_self]

/-- Every word that was taken is answered, and that is all of them unless the last one is stalled.
-/
theorem WritebackBurst.last (h : WritebackBurst s taken acked) (hstate : s.r.state = .writeback)
    (hends : writebackEnds i s = true) :
    taken + (if takes i s then 1 else 0) = acked + 1 ∧
      (taken + (if takes i s then 1 else 0) = 16 ↔ s.r.fillRDone = true ∨ i.busStall = false) := by
  obtain ⟨taken', hle, hle16, htaken, huntaken, hoffered⟩ := h.offered (i := i) hstate
  obtain ⟨⟨hack, hlen⟩, hcount⟩ : (ack i s = true ∧ (Dcache.offered i s).length = 1) ∧
      s.r.count = 0 := by simpa [writebackEnds, reqLast] using hends
  rw [hoffered, Slave.length_burst] at hlen
  cases hdone : s.r.fillRDone with
  | true =>
    have htakes : takes i s = false := by simp [takes, hdone]
    have := huntaken htakes
    have := (h.asked hdone).1
    simp only [htakes, Bool.false_eq_true, if_false, true_or, iff_true]
    omega
  | false =>
    have htakes : takes i s = !i.busStall := by simp [takes, hdone]
    have hasking := h.asking hdone
    cases hstall : i.busStall with
    | true =>
      rw [hstall] at htakes
      have := huntaken htakes
      simp only [htakes, Bool.not_true, reduceCtorEq, if_false, or_self, iff_false]
      omega
    | false =>
      rw [hstall] at htakes
      have := htaken htakes
      simp only [htakes, Bool.not_false, if_true, or_true, iff_true]
      omega

/-- The write-back ends on the sixteenth answer. -/
theorem WritebackBurst.ends (h : WritebackBurst s taken acked) (hstate : s.r.state = .writeback)
    (hok : Orderly i s) (hends : writebackEnds i s = true) : acked = 15 := by
  obtain ⟨hall, hwhole⟩ := h.last hstate hends
  have hor : s.r.fillRDone = true ∨ i.busStall = false := by
    cases hdone : s.r.fillRDone with
    | true => exact .inl rfl
    | false => exact .inr (hok.writeback hstate hends hdone)
  have := hwhole.mpr hor
  omega

theorem writebackRequest_next (hstate : s.r.state = .writeback)
    (hends : writebackEnds i s = false) :
    writebackRequest (next i s) = writebackRequest s := by
  funext j
  rw [writebackRequest, cmem_next_writeback hstate, r_next_writeback hstate hends]
  rfl

/-- Requests that are left after a clock: the registers and the output of the line memory. -/
theorem WritebackBurst.asking_next {taken' : Nat} (h : WritebackBurst s taken acked)
    (hstate : s.r.state = .writeback) (hends : writebackEnds i s = false)
    (htaken' : taken' = taken + (if takes i s then 1 else 0))
    (hdone' : (next i s).r.fillRDone = false) :
    taken' < 16 ∧ (next i s).r.count + taken' = 15 ∧
      (next i s).r.fillOffsetW = Slave.ring 0 taken' ∧
      (next i s).r.fillOffsetR = Slave.ring 0 (taken' + 1) ∧
      (next i s).cmemDob = s.cmem (s.r.fillLineNumber, Slave.ring 0 taken') := by
  rw [r_next_writeback hstate hends] at hdone' ⊢
  obtain ⟨hdone, hlast⟩ : s.r.fillRDone = false ∧ (takes i s = true → s.r.count ≠ 0) := by
    simpa using hdone'
  obtain ⟨hlt, hcount, hoffW, hoffR, hdob⟩ := h.asking hdone
  cases htakes : takes i s with
  | true =>
    have hne := hlast htakes
    have hstall : i.busStall = false := by
      have hboth : i.busStall = false ∧ s.r.fillRDone = false := by simpa [takes] using htakes
      exact hboth.1
    have hdob' : (next i s).cmemDob = s.cmem (s.r.fillLineNumber, s.r.fillOffsetR) := by
      simp [Dcache.next, Ram.Port.read, cmemB, hstate, hstall]
    have hgo : (true && s.r.count != 0) = true := by simpa using hne
    rw [htakes, if_pos rfl] at htaken'
    rw [htaken', hdob', if_pos hgo, if_pos hgo, if_pos hgo, hoffR, Slave.ring_succ]
    have hcount' : s.r.count - 1 + (taken + 1) = 15 := by omega
    exact ⟨by omega, hcount', rfl, rfl, rfl⟩
  | false =>
    have hstall : i.busStall = true := by simpa [takes, hdone] using htakes
    have hdob' : (next i s).cmemDob = s.cmemDob := by
      simp [Dcache.next, Ram.Port.read, cmemB, hstate, hstall]
    rw [htakes, if_neg Bool.false_ne_true, Nat.add_zero] at htaken'
    rw [htaken', hdob']
    exact ⟨hlt, hcount, hoffW, hoffR, hdob⟩

theorem WritebackBurst.asked_next {taken' : Nat} (h : WritebackBurst s taken acked)
    (hstate : s.r.state = .writeback) (hends : writebackEnds i s = false)
    (htaken' : taken' = taken + (if takes i s then 1 else 0))
    (hdone' : (next i s).r.fillRDone = true) : taken' = 16 ∧ (next i s).r.count = 0 := by
  rw [r_next_writeback hstate hends] at hdone' ⊢
  cases hdone : s.r.fillRDone with
  | true =>
    have htakes : takes i s = false := by simp [takes, hdone]
    obtain ⟨h16, h0⟩ := h.asked hdone
    rw [htakes, if_neg Bool.false_ne_true, Nat.add_zero] at htaken'
    rw [htaken']
    exact ⟨h16, by simp [htakes, h0]⟩
  | false =>
    obtain ⟨htakes, h0⟩ : takes i s = true ∧ s.r.count = 0 := by simpa [hdone] using hdone'
    have hasking := h.asking hdone
    rw [htakes, if_pos rfl] at htaken'
    exact ⟨by omega, by simp [h0]⟩

theorem WritebackBurst.step (h : WritebackBurst s taken acked) (hstate : s.r.state = .writeback)
    (hends : writebackEnds i s = false) :
    ∃ taken' acked', taken' = taken + (if takes i s then 1 else 0) ∧
      acked' = acked + (if ack i s then 1 else 0) ∧ WritebackBurst (next i s) taken' acked' := by
  obtain ⟨taken', hle, hle16, htaken, huntaken, hoffered⟩ := h.offered (i := i) hstate
  have horder := h.order
  have hcmem := cmem_next_writeback (i := i) hstate
  have hreq := writebackRequest_next hstate hends
  have htaken' : taken' = taken + (if takes i s then 1 else 0) := by
    by_cases htakes : takes i s = true
    · rw [if_pos htakes, htaken htakes]
    · rw [if_neg htakes, huntaken (by simpa using htakes)]
      rfl
  have hmake : ∀ acked', acked' ≤ taken' → acked' < 16 →
      Slave.rest i.busAck (Dcache.offered i s) = Slave.burst (writebackRequest s) acked' taken' →
      WritebackBurst (next i s) taken' acked' := by
    intro acked' hle' hlt' hrest
    constructor
    case order => exact ⟨hle', hle16, hlt'⟩
    case asking =>
      rw [hcmem]
      have hline : (next i s).r.fillLineNumber = s.r.fillLineNumber := by
        rw [r_next_writeback hstate hends]
        rfl
      rw [hline]
      exact h.asking_next hstate hends htaken'
    case asked => exact h.asked_next hstate hends htaken'
    case bus => rw [hreq]; exact hrest
  cases hanswer : answer i s with
  | none =>
    have hack : ack i s = false := by simp [ack, hanswer]
    refine ⟨taken', acked, htaken', by simp [hack], hmake acked (by omega) horder.2.2 ?_⟩
    rw [Slave.rest_of_answer_none hanswer, hoffered]
  | some q =>
    have hack : ack i s = true := by simp [ack, hanswer]
    have hburst := hanswer
    rw [answer, hoffered] at hburst
    obtain ⟨hlt, -, hrest⟩ := Slave.answer_burst hburst
    rw [← hoffered] at hrest
    refine ⟨taken', acked + 1, htaken', by simp [hack], hmake _ (by omega) ?_ hrest⟩
    -- the sixteenth answer would have ended it
    by_contra hge
    have hlen : (Dcache.offered i s).length = 1 := by
      rw [hoffered, Slave.length_burst]
      omega
    have h0 : s.r.count = 0 := by
      cases hdone : s.r.fillRDone with
      | true => exact (h.asked hdone).2
      | false =>
        have hasking := h.asking hdone
        cases htakes : takes i s with
        | true => have := htaken htakes; omega
        | false => have := huntaken htakes; omega
    simp [writebackEnds, reqLast, hack, hlen, h0] at hends

end Writeback

/-! ## What a clock can do -/

section Step

variable {i : DcacheInput t l} {s : Dcache t l}

structure SameRequest (s s' : Dcache t l) : Prop where
  req : s'.r.req = s.r.req
  request : s'.r.request = s.r.request
  reqOffset : s'.r.reqOffset = s.r.reqOffset

structure Keeps (s s' : Dcache t l) : Prop extends SameRequest s s' where
  inFlush : s'.r.inFlush = s.r.inFlush

theorem SameRequest.offset_next {s s' : Dcache t l} (h : SameRequest s s')
    (hoffset : s.r.req = true → s.r.reqOffset = s.r.request.addr.offset) :
    s'.r.req = true → s'.r.reqOffset = s'.r.request.addr.offset := by
  rw [h.req, h.request, h.reqOffset]
  exact hoffset

structure StartsFill (s s' : Dcache t l) : Prop where
  tag : s'.r.fillTag = s.r.request.addr.tag
  line : s'.r.fillLineNumber = s.r.request.addr.line
  done : s'.r.fillRDone = false

inductive IdleStep (i : DcacheInput t l) (s : Dcache t l) : Prop
  | accepts (hbusy : willBusy s = false)
      (hr : (next i s).r = { accept i (defaults s) with flushReq := i.flush || s.r.flushReq })
  | flushes (hflush : s.r.flushReq = true) (hkeeps : Keeps s (next i s))
      (hstate' : (next i s).r.state = .flush)
      (hlines : (next i s).r.fillLineNumber = 0 ∧ (next i s).r.flushLineNumber = 0)
  | direct (hmiss : miss s = true)
      (hwhy : s.r.request.cached = false ∨
        s.tmemDoa.valid = false ∧ s.r.request.we = true)
      (hkeeps : Keeps s (next i s)) (hstate' : (next i s).r.state = .directmemory)
      (hdone' : (next i s).r.fillRDone = false)
  | evicts (hmiss : miss s = true) (hcached : s.r.request.cached = true)
      (hvictim : s.tmemDoa.valid = true ∧ s.tmemDoa.dirty = true) (hkeeps : Keeps s (next i s))
      (hstate' : (next i s).r.state = if s.r.request.we then .recover else .preparewb)
      (hfill : StartsFill s (next i s)) (htag : (next i s).r.writebackTag = s.tmemDoa.tag)
      (hoffsets : (next i s).r.fillOffsetR = 0 ∧ (next i s).r.fillOffsetW = 0)
  | fills (hmiss : miss s = true) (hcached : s.r.request.cached = true)
      (hclean : ¬ (s.tmemDoa.valid = true ∧ s.tmemDoa.dirty = true))
      (hallocates : s.tmemDoa.valid = false → s.r.request.we = true →
        s.r.request.accesstype = .wbWa)
      (hkeeps : Keeps s (next i s))
      (hstate' : (next i s).r.state = .readline) (hfill : StartsFill s (next i s))
      (hstart : FillStart (next i s))

theorem miss_req (h : miss s = true) : s.r.req = true := by
  simp only [miss, Bool.and_eq_true] at h
  exact h.1

theorem idleStep (hstate : s.r.state = .idle) : IdleStep i s := by
  have hcase : caseNext i s = idleNext i s := by simp [caseNext, hstate]
  have hr := r_next_of hcase
  cases hflush : s.r.flushReq with
  | true =>
    have hbusy : willBusy s = true := by simp [willBusy, hflush]
    refine .flushes hflush ?_ ?_ ?_
    · refine ⟨⟨?_, ?_, ?_⟩, ?_⟩ <;> rw [hr] <;> simp only [idleNext, hbusy, hflush, if_true] <;>
        cases miss s <;> cases hc : s.r.request.cached <;> simp [missNext, defaults] <;>
        split_ifs <;> (try cases s.r.request.accesstype) <;> rfl
    · rw [hr]
      simp [idleNext, hbusy, hflush]
    · rw [hr]
      simp [idleNext, hbusy, hflush]
  | false =>
    cases hmiss : miss s with
    | false =>
      have hbusy : willBusy s = false := by simp [willBusy, hflush, hmiss]
      have hidle : idleNext i s = accept i (defaults s) := by
        simp [idleNext, hbusy, hmiss, hflush]
      refine .accepts hbusy ?_
      rw [hr, hidle]
      rfl
    | true =>
      have hbusy : willBusy s = true := by simp [willBusy, hmiss]
      have hidle : idleNext i s = if s.r.request.cached then missNext s (defaults s)
          else { defaults s with state := .directmemory, fillRDone := false } := by
        simp [idleNext, hbusy, hmiss, hflush]
      cases hcached : s.r.request.cached with
      | false =>
        rw [hcached, if_neg Bool.false_ne_true] at hidle
        refine .direct hmiss (.inl hcached) ?_ ?_ ?_
        · refine ⟨⟨?_, ?_, ?_⟩, ?_⟩ <;> rw [hr, hidle] <;> rfl
        · rw [hr, hidle]
        · rw [hr, hidle]
      | true =>
        rw [hcached, if_pos rfl] at hidle
        cases hvalid : s.tmemDoa.valid with
        | true =>
          cases hdirty : s.tmemDoa.dirty with
          | true =>
            refine .evicts hmiss hcached ⟨hvalid, hdirty⟩ ?_ ?_ ?_ ?_ ?_
            · refine ⟨⟨?_, ?_, ?_⟩, ?_⟩ <;> rw [hr, hidle] <;>
                simp [missNext, hvalid, hdirty, defaults]
            · rw [hr, hidle]
              simp [missNext, hvalid, hdirty]
            · constructor <;> rw [hr, hidle] <;> simp [missNext, hvalid, hdirty]
            · rw [hr, hidle]
              simp [missNext, hvalid, hdirty]
            · rw [hr, hidle]
              simp [missNext, hvalid, hdirty]
          | false =>
            refine .fills hmiss hcached (by simp [hdirty]) (by simp [hvalid]) ?_ ?_ ?_ ?_
            · refine ⟨⟨?_, ?_, ?_⟩, ?_⟩ <;> rw [hr, hidle] <;>
                simp [missNext, hvalid, hdirty, defaults]
            · rw [hr, hidle]
              simp [missNext, hvalid, hdirty]
            · constructor <;> rw [hr, hidle] <;> simp [missNext, hvalid, hdirty]
            · constructor <;> rw [hr, hidle] <;>
                simp [missNext, hvalid, hdirty, defaults, burstwords, miss_req hmiss]
        | false =>
          by_cases hdirect : s.r.request.we = true ∧ s.r.request.accesstype ≠ .wbWa
          · obtain ⟨hwe, hwa⟩ := hdirect
            have hna : s.r.request.accesstype ≠ .nocache := by
              simpa [DcacheRequest.cached] using hcached
            refine .direct hmiss (.inr ⟨hvalid, hwe⟩) ?_ ?_ ?_
            · refine ⟨⟨?_, ?_, ?_⟩, ?_⟩ <;> rw [hr, hidle] <;>
                cases hat : s.r.request.accesstype <;> simp_all [missNext, defaults]
            · rw [hr, hidle]
              cases hat : s.r.request.accesstype <;> simp_all [missNext]
            · rw [hr, hidle]
              cases hat : s.r.request.accesstype <;> simp_all [missNext]
          · have hread : missNext s (defaults s) = { defaults s with
                fillTag := s.r.request.addr.tag
                fillLineNumber := s.r.request.addr.line
                count := burstwords
                fillRDone := false
                fillOffsetR := s.r.reqOffset
                fillOffsetW := s.r.reqOffset
                state := .readline } := by
              cases hwe : s.r.request.we <;> cases hat : s.r.request.accesstype <;>
                simp_all [missNext]
            rw [hread] at hidle
            refine .fills hmiss hcached (by simp [hvalid]) (fun _ hwe => ?_) ?_ ?_ ?_ ?_
            · by_contra hwa
              exact hdirect ⟨hwe, hwa⟩
            · refine ⟨⟨?_, ?_, ?_⟩, ?_⟩ <;> rw [hr, hidle] <;> rfl
            · rw [hr, hidle]
            · constructor <;> rw [hr, hidle]
            · constructor <;> rw [hr, hidle] <;> simp [defaults, burstwords, miss_req hmiss]

inductive FlushStep (i : DcacheInput t l) (s : Dcache t l) : Prop
  | victim (hdirty : victimDirty s = true) (hstate' : (next i s).r.state = .preparewb)
      (htag : (next i s).r.writebackTag = s.tmemDob.tag)
      (hlines : (next i s).r.fillLineNumber = s.r.fillLineNumber ∧
        (next i s).r.flushLineNumber = s.r.flushLineNumber)
      (hoffsets : (next i s).r.fillOffsetR = 0 ∧ (next i s).r.fillOffsetW = 0)
      (hdone' : (next i s).r.fillRDone = false) (hin : (next i s).r.inFlush = true)
      (hsame : SameRequest s (next i s))
  | clears (hdirty : victimDirty s = false) (hmore : s.r.fillLineNumber ≠ BitVec.allOnes l)
      (hstate' : (next i s).r.state = .flush)
      (hlines : (next i s).r.fillLineNumber = s.r.flushLineNumber ∧
        (next i s).r.flushLineNumber = s.r.flushLineNumber + 1)
      (hin : (next i s).r.inFlush = true) (hsame : SameRequest s (next i s))
  | ends (hdirty : victimDirty s = false) (hlast : s.r.fillLineNumber = BitVec.allOnes l)
      (hstate' : (next i s).r.state = .idle) (hin : (next i s).r.inFlush = false)
      (hsame : SameRequest s (next i s))

theorem flushStep (hstate : s.r.state = .flush) : FlushStep i s := by
  have hcase : caseNext i s = flushNext s := by simp [caseNext, hstate]
  have hr := r_next_of hcase
  cases hdirty : victimDirty s with
  | true =>
    refine .victim hdirty ?_ ?_ ?_ ?_ ?_ ?_ ⟨?_, ?_, ?_⟩ <;> rw [hr] <;>
      simp [flushNext, hdirty, defaults]
  | false =>
    by_cases hlast : s.r.fillLineNumber = BitVec.allOnes l
    · refine .ends hdirty hlast ?_ ?_ ⟨?_, ?_, ?_⟩ <;> rw [hr] <;>
        simp [flushNext, hdirty, hlast, defaults]
    · refine .clears hdirty hlast ?_ ?_ ?_ ⟨?_, ?_, ?_⟩ <;> rw [hr] <;>
        simp [flushNext, hdirty, hlast, defaults, hstate]

theorem r_next_directmemory (hstate : s.r.state = .directmemory) : (next i s).r =
    { (if ack i s then
        { accept i { defaults s with fillRDone := s.r.fillRDone || !i.busStall } with
          state := .idle }
      else { defaults s with fillRDone := s.r.fillRDone || !i.busStall }) with
      flushReq := i.flush || s.r.flushReq } := by
  rw [r_next_of (w := directmemoryNext i s) (by simp [caseNext, hstate]), directmemoryNext]
  cases ack i s <;> rfl

/-- In the directmemory state an answer is the answer to the request. -/
theorem direct_answer (hstate : s.r.state = .directmemory)
    (hbus : s.bus = if s.r.fillRDone then [directRequest s] else []) {q : BusRequest t l}
    (hq : answer i s = some q) : q = directRequest s ∧ (next i s).bus = [] := by
  have hoffered : offered i s = [] ∨ offered i s = [directRequest s] := by
    rw [offered, hbus]
    cases hdone : s.r.fillRDone <;> cases hstall : i.busStall <;>
      simp [busRequest, hdone, hstall, hstate, Slave.offered, directRequest]
  have hcons := Slave.requests_of_answer hq
  show _ ∧ Slave.rest i.busAck (offered i s) = []
  rcases hoffered with hoffered | hoffered
  · rw [hoffered] at hcons
    cases hcons
  · rw [hoffered] at hcons ⊢
    obtain ⟨hq, hrest⟩ := List.cons.inj hcons
    exact ⟨hq.symm, hrest.symm⟩

theorem direct_waits (hstate : s.r.state = .directmemory)
    (hbus : s.bus = if s.r.fillRDone then [directRequest s] else []) (hack : ack i s = false) :
    (next i s).bus = if (next i s).r.fillRDone then [directRequest (next i s)] else [] := by
  have hanswer : answer i s = none := by simpa [ack] using hack
  have hr := r_next_directmemory (i := i) hstate
  rw [hack, if_neg Bool.false_ne_true] at hr
  have hreq : directRequest (next i s) = directRequest s := by
    rw [directRequest, hr]
    rfl
  rw [hreq, hr]
  show Slave.rest i.busAck (offered i s) = _
  rw [Slave.rest_of_answer_none hanswer, offered, hbus]
  cases hdone : s.r.fillRDone <;> cases hstall : i.busStall <;>
    simp [busRequest, hdone, hstall, hstate, Slave.offered, directRequest]

end Step

/-! ## Every clock -/

section Control

variable {i : DcacheInput t l} {s : Dcache t l}

theorem Missed.of_keeps (hcached : s.r.request.cached = true) (hflush : s.r.inFlush = false)
    (hoffset : s.r.reqOffset = s.r.request.addr.offset) (hkeeps : Keeps s (next i s))
    (hfill : StartsFill s (next i s)) : Missed (next i s) where
  inFlush := by rw [hkeeps.inFlush, hflush]
  cached := by rw [hkeeps.request, hcached]
  offset := by rw [hkeeps.reqOffset, hkeeps.request, hoffset]
  line := by rw [hfill.line, hkeeps.request]
  tag := by rw [hfill.tag, hkeeps.request]

theorem Control.step_idle (hstate : s.r.state = .idle)
    (hflush : s.r.inFlush = false) (hbus : s.bus = [])
    (hoffset : s.r.req = true → s.r.reqOffset = s.r.request.addr.offset) :
    Control (next i s) := by
  have hquiet := bus_quiet (i := i) (by simp [OnBus, hstate]) hbus
  have hbus' := hquiet.2.1
  cases idleStep (i := i) hstate with
  | accepts _ hr =>
    refine .idle ?_ ?_ hbus' ?_
    · rw [hr]
      exact hstate
    · rw [hr]
      exact hflush
    · rw [hr]
      intro hreq
      have htaken : (i.strobe && i.enable) = true := hreq
      simp [accept, htaken]
  | flushes _ hkeeps hstate' _ => exact .flush hstate' (hkeeps.offset_next hoffset) hbus'
  | direct hmiss _ hkeeps hstate' hdone' =>
    refine .directmemory hstate' ?_ ?_ ?_
    · rw [hkeeps.inFlush, hflush]
    · rw [hkeeps.req, miss_req hmiss]
    · rw [hbus', hdone']
      rfl
  | evicts hmiss hcached _ hkeeps hstate' hfill _ hoffsets =>
    have hreq := miss_req hmiss
    have hmissed := Missed.of_keeps hcached hflush (hoffset hreq) hkeeps hfill
    have hreq' : (next i s).r.req = true := by rw [hkeeps.req, hreq]
    cases hwe : s.r.request.we with
    | true =>
      rw [hwe, if_pos rfl] at hstate'
      exact .recover hstate' hmissed hreq' (by rw [hkeeps.request, hwe]) hbus' hoffsets
    | false =>
      rw [hwe, if_neg Bool.false_ne_true] at hstate'
      exact .preparewb hstate' (.inr ⟨hmissed, hreq'⟩) hbus' hoffsets hfill.done
  | fills hmiss hcached _ _ hkeeps hstate' hfill hstart =>
    have hmissed := Missed.of_keeps hcached hflush (hoffset (miss_req hmiss)) hkeeps hfill
    exact .readline 0 0 hstate' hmissed (.start hstart hbus')

theorem Control.step_readline {taken acked : Nat} (hstate : s.r.state = .readline)
    (hmissed : Missed s) (hburst : FillBurst s taken acked) : Control (next i s) := by
  obtain ⟨taken', acked', -, hburst', -, hends⟩ := hburst.step (i := i) hstate
  have hr := r_next_readline (i := i) hstate
  have hmissed' : Missed (next i s) := by
    constructor <;> rw [hr]
    · exact hmissed.inFlush
    · exact hmissed.cached
    · exact hmissed.offset
    · exact hmissed.line
    · exact hmissed.tag
  cases hend : fillEnds i s with
  | false =>
    refine .readline taken' acked' ?_ hmissed' hburst'
    rw [hr]
    simp [readlineNext, hend, hstate]
  | true =>
    have hbus' := (hends hend).2
    cases hwe : s.r.request.we with
    | true =>
      refine .writeAfterFill ?_ hmissed' ?_ hbus' <;> rw [hr]
      · simp [readlineNext, hend, hwe]
      · exact hwe
    | false =>
      refine .settle ?_ hmissed' hbus'
      rw [hr]
      simp [readlineNext, hend, hwe]

theorem why_next (hwhy : Sweeping s ∨ Missed s ∧ s.r.req = true) (hkeeps : Keeps s (next i s))
    (hline : (next i s).r.fillLineNumber = s.r.fillLineNumber)
    (htag : (next i s).r.fillTag = s.r.fillTag) :
    Sweeping (next i s) ∨ Missed (next i s) ∧ (next i s).r.req = true := by
  rcases hwhy with hsweep | ⟨hmissed, hreq⟩
  · exact .inl ⟨by rw [hkeeps.inFlush, hsweep.inFlush], hkeeps.offset_next hsweep.offset⟩
  · right
    refine ⟨⟨?_, ?_, ?_, ?_, ?_⟩, by rw [hkeeps.req, hreq]⟩
    · rw [hkeeps.inFlush, hmissed.inFlush]
    · rw [hkeeps.request, hmissed.cached]
    · rw [hkeeps.reqOffset, hkeeps.request, hmissed.offset]
    · rw [hline, hkeeps.request, hmissed.line]
    · rw [htag, hkeeps.request, hmissed.tag]

/-- A line has gone out, and the one that was wanted is brought in. -/
theorem writeback_fills {taken acked : Nat} (hstate : s.r.state = .writeback) (hmissed : Missed s)
    (hreq : s.r.req = true) (hburst : WritebackBurst s taken acked)
    (hends : writebackEnds i s = true) :
    (next i s).r.state = .readline ∧ Missed (next i s) ∧ Keeps s (next i s) ∧
      FillBurst (next i s) 0 0 ∧ (next i s).r.ackQQ = false := by
  have hbus' := (hburst.drained hstate hends).2
  have hcase : caseNext i s = writebackNext i s := by simp [caseNext, hstate]
  have hr := r_next_of hcase
  refine ⟨?_, ?_, ?_, ?_, ?_⟩
  · rw [hr]
    simp [writebackNext, hends, hmissed.inFlush]
  · constructor <;> rw [hr] <;> simp [writebackNext, hends, hmissed.inFlush, defaults,
      hmissed.cached, hmissed.offset, hmissed.line, hmissed.tag]
  · refine ⟨⟨?_, ?_, ?_⟩, ?_⟩ <;> rw [hr] <;> simp [writebackNext, hends, hmissed.inFlush, defaults]
  · refine FillBurst.start ?_ hbus'
    constructor <;> rw [hr] <;>
      simp [writebackNext, hends, hmissed.inFlush, defaults, burstwords, hreq]
  · rw [hr]
    simp [writebackNext, hends, hmissed.inFlush, defaults]

theorem writeback_flushes (hstate : s.r.state = .writeback) (hflush : s.r.inFlush = true)
    (hends : writebackEnds i s = true) :
    (next i s).r.state = .flush ∧ SameRequest s (next i s) ∧ (next i s).r.inFlush = false ∧
      (next i s).r.fillLineNumber = s.r.fillLineNumber ∧
      (next i s).r.flushLineNumber = s.r.flushLineNumber := by
  have hcase : caseNext i s = writebackNext i s := by simp [caseNext, hstate]
  have hr := r_next_of hcase
  refine ⟨?_, ⟨?_, ?_, ?_⟩, ?_, ?_, ?_⟩ <;> rw [hr] <;>
    simp [writebackNext, hends, hflush, defaults]

theorem Control.step_writeback {taken acked : Nat} (hstate : s.r.state = .writeback)
    (hwhy : Sweeping s ∨ Missed s ∧ s.r.req = true)
    (hburst : WritebackBurst s taken acked) : Control (next i s) := by
  cases hends : writebackEnds i s with
  | false =>
    obtain ⟨taken', acked', -, -, hburst'⟩ := hburst.step hstate hends
    have hr := r_next_writeback hstate hends
    refine .writeback taken' acked' ?_ (why_next hwhy ?_ ?_ ?_) hburst'
    · rw [hr]
      exact hstate
    · refine ⟨⟨?_, ?_, ?_⟩, ?_⟩ <;> rw [hr] <;> rfl
    · rw [hr]
      rfl
    · rw [hr]
      rfl
  | true =>
    rcases hwhy with hsweep | ⟨hmissed, hreq⟩
    · obtain ⟨hstate', hsame, -⟩ := writeback_flushes hstate hsweep.inFlush hends
      exact .flush hstate' (hsame.offset_next hsweep.offset) (hburst.drained hstate hends).2
    · obtain ⟨hstate', hmissed', -, hburst', -⟩ :=
        writeback_fills hstate hmissed hreq hburst hends
      exact .readline 0 0 hstate' hmissed' hburst'

theorem Control.step_directmemory (hstate : s.r.state = .directmemory)
    (hflush : s.r.inFlush = false) (hreq : s.r.req = true)
    (hbus : s.bus = if s.r.fillRDone then [directRequest s] else []) : Control (next i s) := by
  have hr := r_next_directmemory (i := i) hstate
  cases hack : ack i s with
  | true =>
    rw [hack, if_pos rfl] at hr
    obtain ⟨q, hq⟩ := Option.isSome_iff_exists.mp hack
    refine .idle ?_ ?_ (direct_answer hstate hbus hq).2 ?_ <;> rw [hr]
    · exact hflush
    · intro hreq'
      have htaken : (i.strobe && i.enable) = true := hreq'
      simp [accept, htaken]
  | false =>
    have hbus' := direct_waits hstate hbus hack
    rw [hack, if_neg Bool.false_ne_true] at hr
    refine .directmemory ?_ ?_ ?_ hbus' <;> rw [hr]
    · exact hstate
    · exact hflush
    · exact hreq

theorem Control.step_recover (hstate : s.r.state = .recover) (hmissed : Missed s)
    (hreq : s.r.req = true) (hbus : s.bus = [])
    (hoffsets : s.r.fillOffsetR = 0 ∧ s.r.fillOffsetW = 0) : Control (next i s) := by
  have hbus' := (bus_quiet (i := i) (by simp [OnBus, hstate]) hbus).2.1
  have hcase : caseNext i s = { defaults s with fillRDone := false, state := .preparewb } := by
    simp [caseNext, hstate]
  have hr := r_next_of hcase
  refine .preparewb ?_ (why_next (.inr ⟨hmissed, hreq⟩) ?_ ?_ ?_) hbus' ?_ ?_
  · rw [hr]
  · refine ⟨⟨?_, ?_, ?_⟩, ?_⟩ <;> rw [hr] <;> rfl
  · rw [hr]
    rfl
  · rw [hr]
    rfl
  · rw [hr]
    exact hoffsets
  · rw [hr]

theorem cmem_next_preparewb (hstate : s.r.state = .preparewb) : (next i s).cmem = s.cmem := by
  show (cmemB i s).write ((cmemA i s).write s.cmem) = s.cmem
  have hA : (cmemA i s).en = false := by simp [cmemA, hstate]
  have hB : (cmemB i s).upd = id := by simp [cmemB, hstate]
  rw [Ram.Port.write_of_id hB, Ram.Port.write_of_off hA]

theorem r_next_preparewb (hstate : s.r.state = .preparewb) : (next i s).r = { defaults s with
    fillOffsetR := s.r.fillOffsetR + 1
    count := burstwords
    state := .writeback
    flushReq := i.flush || s.r.flushReq } := by
  have hcase : caseNext i s = { defaults s with
      fillOffsetR := s.r.fillOffsetR + 1, count := burstwords, state := .writeback } := by
    simp [caseNext, hstate]
  exact r_next_of hcase

theorem WritebackBurst.start (hstate : s.r.state = .preparewb) (hbus : s.bus = [])
    (hoffsets : s.r.fillOffsetR = 0 ∧ s.r.fillOffsetW = 0) (hdone : s.r.fillRDone = false) :
    WritebackBurst (next i s) 0 0 := by
  have hbus' := (bus_quiet (i := i) (by simp [OnBus, hstate]) hbus).2.1
  have hr := r_next_preparewb (i := i) hstate
  have hcmem := cmem_next_preparewb (i := i) hstate
  have hdob : (next i s).cmemDob = s.cmem (s.r.fillLineNumber, 0) := by
    simp [Dcache.next, Ram.Port.read, cmemB, hstate, hoffsets.1]
  constructor
  case order => omega
  case asking =>
    intro _
    rw [hcmem, hdob, hr]
    refine ⟨by omega, rfl, ?_, ?_, ?_⟩
    · rw [Slave.ring_zero]
      exact hoffsets.2
    · show s.r.fillOffsetR + 1 = _
      rw [hoffsets.1, ← Slave.ring_succ, Slave.ring_zero]
    · rw [Slave.ring_zero]
      rfl
  case asked =>
    intro hdone'
    rw [hr] at hdone'
    have hdone' : s.r.fillRDone = true := hdone'
    rw [hdone] at hdone'
    cases hdone'
  case bus => rw [hbus', Slave.burst_self]

theorem Control.step_preparewb (hstate : s.r.state = .preparewb)
    (hwhy : Sweeping s ∨ Missed s ∧ s.r.req = true) (hbus : s.bus = [])
    (hoffsets : s.r.fillOffsetR = 0 ∧ s.r.fillOffsetW = 0) (hdone : s.r.fillRDone = false) :
    Control (next i s) := by
  have hr := r_next_preparewb (i := i) hstate
  refine .writeback 0 0 ?_ (why_next hwhy ?_ ?_ ?_) (.start hstate hbus hoffsets hdone)
  · rw [hr]
  · refine ⟨⟨?_, ?_, ?_⟩, ?_⟩ <;> rw [hr] <;> rfl
  · rw [hr]
    rfl
  · rw [hr]
    rfl

theorem Control.step_flush (hstate : s.r.state = .flush)
    (hoffset : s.r.req = true → s.r.reqOffset = s.r.request.addr.offset) (hbus : s.bus = []) :
    Control (next i s) := by
  have hbus' := (bus_quiet (i := i) (by simp [OnBus, hstate]) hbus).2.1
  cases flushStep (i := i) hstate with
  | victim _ hstate' _ _ hoffsets hdone' hin hsame =>
    exact .preparewb hstate' (.inl ⟨hin, hsame.offset_next hoffset⟩) hbus' hoffsets hdone'
  | clears _ _ hstate' _ _ hsame => exact .flush hstate' (hsame.offset_next hoffset) hbus'
  | ends _ _ hstate' hin hsame => exact .idle hstate' hin hbus' (hsame.offset_next hoffset)

/-- Every clock goes from a state as it should be to one. -/
theorem Control.step (h : Control s) : Control (next i s) := by
  have hkeep : ∀ w : DcacheState, caseNext i s = { defaults s with state := w } → Missed s →
      Missed (next i s) := by
    intro w hcase hmissed
    have hr := r_next_of hcase
    constructor <;> rw [hr]
    · exact hmissed.inFlush
    · exact hmissed.cached
    · exact hmissed.offset
    · exact hmissed.line
    · exact hmissed.tag
  cases h with
  | idle hstate hflush hbus hoffset => exact .step_idle hstate hflush hbus hoffset
  | directmemory hstate hflush hreq hbus => exact .step_directmemory hstate hflush hreq hbus
  | recover hstate hmissed hreq _ hbus hoffsets =>
    exact .step_recover hstate hmissed hreq hbus hoffsets
  | preparewb hstate hwhy hbus hoffsets hdone =>
    exact .step_preparewb hstate hwhy hbus hoffsets hdone
  | writeback taken acked hstate hwhy hburst => exact .step_writeback hstate hwhy hburst
  | readline taken acked hstate hmissed hburst => exact .step_readline hstate hmissed hburst
  | flush hstate hoffset hbus => exact .step_flush hstate hoffset hbus
  | writeAfterFill hstate hmissed _ hbus =>
    have hbus' := (bus_quiet (i := i) (by simp [OnBus, hstate]) hbus).2.1
    have hcase : caseNext i s = { defaults s with state := .settle } := by
      simp [caseNext, hstate]
    refine .settle ?_ (hkeep _ hcase hmissed) hbus'
    rw [r_next_of hcase]
  | settle hstate hmissed hbus =>
    have hbus' := (bus_quiet (i := i) (by simp [OnBus, hstate]) hbus).2.1
    have hcase : caseNext i s = { defaults s with state := .idle } := by
      simp [caseNext, hstate]
    have hmissed' := hkeep _ hcase hmissed
    refine .idle ?_ hmissed'.inFlush hbus' fun _ => hmissed'.offset
    rw [r_next_of hcase]

theorem control_run {s₀ : Dcache t l} (hreset : Reset s₀) (inputs : Nat → DcacheInput t l)
    (n : Nat) : Control (run s₀ inputs n) := by
  induction n with
  | zero => exact hreset.control
  | succ n ih => exact ih.step

end Control

end Dcache

end Xtc
