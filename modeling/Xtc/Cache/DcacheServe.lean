import Xtc.Cache.DcacheControl

/-!
# DcacheServe — every request the data cache accepts is acknowledged once, in order

At most one request is in the cache.  In each clock the one that was there and the one that is
accepted make up what is acknowledged and what is there afterwards, unless a flush begins on a hit:
then the request is acknowledged and stays.
-/

namespace Xtc

namespace Dcache

variable {t l : Nat} {i : DcacheInput t l} {s : Dcache t l}

def pendingTag (s : Dcache t l) : List Word := if s.r.req then [s.r.request.tag] else []

def acceptedTag (i : DcacheInput t l) (s : Dcache t l) : List Word :=
  ((accepted i s).map DcacheRequest.tag).toList

def acknowledgedTag (i : DcacheInput t l) (s : Dcache t l) : List Word :=
  if valid i s then [tag i s] else []

/-- The clocks in which no request is lost or served twice: a flush begins with no request waiting,
and the slave does not answer the last word of a fill in the clock in which it takes it, with the
others answered before. -/
@[mk_iff] structure Serves (i : DcacheInput t l) (s : Dcache t l) : Prop where
  flush : s.r.state = .idle → s.r.flushReq = true → s.r.req = false
  fill : s.r.state = .readline → takes i s = true → s.r.count = 0 → reqLast i s = false

/-! ## What a clock does to the request -/

theorem acceptedTag_of_stall (h : stall i s = true) : acceptedTag i s = [] := by
  simp [acceptedTag, accepted, h]

theorem pendingTag_of_same (h : SameRequest s (next i s)) :
    pendingTag (next i s) = pendingTag s := by
  rw [pendingTag, h.req, h.request]
  rfl

theorem conserved_of_same (hstall : stall i s = true) (hvalid : valid i s = false)
    (hsame : SameRequest s (next i s)) :
    acknowledgedTag i s ++ pendingTag (next i s) = pendingTag s ++ acceptedTag i s := by
  rw [acceptedTag_of_stall hstall, pendingTag_of_same hsame]
  simp [acknowledgedTag, hvalid]

theorem pendingTag_of_accept (hreq : (next i s).r.req = (i.strobe && i.enable))
    (htag : (next i s).r.request.tag = i.request.tag) (hstall : stall i s = false) :
    pendingTag (next i s) = acceptedTag i s := by
  rw [pendingTag, hreq, htag, acceptedTag, accepted, hstall]
  cases hoffer : i.strobe && i.enable <;> simp [DcacheInput.offers, hoffer]

theorem conserved_idle (hstate : s.r.state = .idle)
    (hflush : s.r.flushReq = true → s.r.req = false) :
    acknowledgedTag i s ++ pendingTag (next i s) = pendingTag s ++ acceptedTag i s := by
  have hvalid : valid i s = (s.r.req && !miss s) := by simp [valid, hstate]
  have hmissed : miss s = true → SameRequest s (next i s) →
      acknowledgedTag i s ++ pendingTag (next i s) = pendingTag s ++ acceptedTag i s := by
    intro hmiss hsame
    refine conserved_of_same ?_ (by simp [hvalid, hmiss]) hsame
    simp [stall, hstate, willBusy, hmiss]
  cases idleStep (i := i) hstate with
  | accepts hbusy hr =>
    obtain ⟨hmiss, -⟩ : miss s = false ∧ s.r.flushReq = false := by simpa [willBusy] using hbusy
    have hstall : stall i s = false := by simp [stall, hstate, hbusy]
    have hack : acknowledgedTag i s = pendingTag s := by
      simp [acknowledgedTag, hvalid, hmiss, pendingTag, tag, hstate]
    rw [hack, pendingTag_of_accept ?_ ?_ hstall] <;> rw [hr] <;> rfl
  | flushes hreq hkeeps =>
    have hno := hflush hreq
    exact conserved_of_same (by simp [stall, hstate, willBusy, hreq]) (by simp [hvalid, hno])
      hkeeps.toSameRequest
  | direct hmiss _ hkeeps => exact hmissed hmiss hkeeps.toSameRequest
  | evicts hmiss _ _ hkeeps => exact hmissed hmiss hkeeps.toSameRequest
  | fills hmiss _ _ _ hkeeps => exact hmissed hmiss hkeeps.toSameRequest

theorem conserved_directmemory (hstate : s.r.state = .directmemory) (hreq : s.r.req = true)
    (hbus : s.bus = if s.r.fillRDone then [directRequest s] else []) :
    acknowledgedTag i s ++ pendingTag (next i s) = pendingTag s ++ acceptedTag i s := by
  have hr := r_next_directmemory (i := i) hstate
  cases hack : ack i s with
  | true =>
    rw [hack, if_pos rfl] at hr
    obtain ⟨q, hq⟩ := Option.isSome_iff_exists.mp hack
    have hdirect := (direct_answer hstate hbus hq).1
    have hack' : acknowledgedTag i s = pendingTag s := by
      simp [acknowledgedTag, valid, hstate, hack, pendingTag, hreq, tag, hq, hdirect,
        directRequest]
    have hstall : stall i s = false := by simp [stall, hstate, hack]
    rw [hack', pendingTag_of_accept ?_ ?_ hstall] <;> rw [hr] <;> rfl
  | false =>
    rw [hack, if_neg Bool.false_ne_true] at hr
    refine conserved_of_same (by simp [stall, hstate, hack]) (by simp [valid, hstate, hack]) ?_
    constructor <;> rw [hr] <;> rfl

/-- A fill acknowledges its request at most once. -/
theorem conserved_readline {taken acked : Nat} (hstate : s.r.state = .readline)
    (hburst : FillBurst s taken acked) :
    acknowledgedTag i s ++ pendingTag (next i s) = pendingTag s ++ acceptedTag i s := by
  have hr := r_next_readline (i := i) hstate
  have hstall : stall i s = true := by simp [stall, hstate]
  have hrequest : (next i s).r.request = s.r.request := by
    rw [hr]
    rfl
  have hvalid : valid i s = (s.r.ackQQ && s.r.finishedW == s.r.reqOffset) := by
    simp [valid, hstate]
  have hreq : (next i s).r.req = (s.r.req && !valid i s) := by
    rw [hr, hvalid]
    rfl
  rw [acceptedTag_of_stall hstall, List.append_nil, acknowledgedTag, pendingTag, hreq, hrequest]
  cases hack : valid i s with
  | false => simp [pendingTag]
  | true =>
    obtain ⟨hackQQ, hfirst⟩ : s.r.ackQQ = true ∧ s.r.finishedW = s.r.reqOffset := by
      simpa [hvalid] using hack
    have hreq' := (hburst.acknowledges hackQQ hfirst).2.2
    simp [pendingTag, hreq', tag, hstate]

/-- The other states leave the request alone. -/
theorem sameRequest_busy (hidle : s.r.state ≠ .idle) (hdirect : s.r.state ≠ .directmemory)
    (hread : s.r.state ≠ .readline) : SameRequest s (next i s) := by
  have hwriteback : (writebackNext i s).req = s.r.req ∧ (writebackNext i s).request = s.r.request ∧
      (writebackNext i s).reqOffset = s.r.reqOffset := by
    unfold writebackNext
    split_ifs <;> exact ⟨rfl, rfl, rfl⟩
  have hflush : (flushNext s).req = s.r.req ∧ (flushNext s).request = s.r.request ∧
      (flushNext s).reqOffset = s.r.reqOffset := by
    unfold flushNext
    split_ifs <;> exact ⟨rfl, rfl, rfl⟩
  have hcase : (caseNext i s).req = s.r.req ∧ (caseNext i s).request = s.r.request ∧
      (caseNext i s).reqOffset = s.r.reqOffset := by
    unfold caseNext
    cases hstate : s.r.state with
    | idle => exact absurd hstate hidle
    | directmemory => exact absurd hstate hdirect
    | readline => exact absurd hstate hread
    | writeback => exact hwriteback
    | flush => exact hflush
    | _ => exact ⟨rfl, rfl, rfl⟩
  exact ⟨hcase.1, hcase.2.1, hcase.2.2⟩

/-- What is acknowledged, and what is in the cache after the clock, is what was in it before and
what is accepted. -/
theorem Control.conserved (h : Control s) (hs : Serves i s) :
    acknowledgedTag i s ++ pendingTag (next i s) = pendingTag s ++ acceptedTag i s := by
  have hbusy : s.r.state ≠ .idle → s.r.state ≠ .directmemory → s.r.state ≠ .readline →
      acknowledgedTag i s ++ pendingTag (next i s) = pendingTag s ++ acceptedTag i s := by
    intro hidle hdirect hread
    refine conserved_of_same ?_ ?_ (sameRequest_busy hidle hdirect hread)
    · cases hstate : s.r.state <;> simp_all [stall]
    · cases hstate : s.r.state <;> simp_all [valid]
  cases h with
  | idle hstate => exact conserved_idle hstate (hs.flush hstate)
  | directmemory hstate _ hreq hbus => exact conserved_directmemory hstate hreq hbus
  | readline _ _ hstate _ hburst => exact conserved_readline hstate hburst
  | _ => apply hbusy <;> simp [*]

/-! ## No request waits for ever -/

/-- The states in which a request goes on: none waits for a flush, a fill that is still going on
has something outstanding, and a line that was brought in has its entry. -/
structure Live (s : Dcache t l) : Prop where
  control : Control s
  flushing : s.r.state = .flush ∨ s.r.inFlush = true → s.r.req = false
  filling : s.r.state = .readline → s.r.fillRDone = true → s.bus ≠ []
  fetched : s.r.state = .writeAfterFill ∨ s.r.state = .settle →
    (s.tmem s.r.request.addr.line).valid = true ∧
      (s.tmem s.r.request.addr.line).tag = s.r.request.addr.tag

theorem Reset.live (h : Reset s) : Live s where
  control := h.control
  flushing _ := h.req
  filling hstate := by
    rw [h.state] at hstate
    cases hstate
  fetched hstate := by
    rw [h.state] at hstate
    rcases hstate with hstate | hstate <;> cases hstate

theorem reqLast_of_bus (hoffered : offered i s ≠ []) (hbus : (next i s).bus = []) :
    reqLast i s = true := by
  have hrest : Slave.rest i.busAck (offered i s) = [] := hbus
  cases hlist : offered i s with
  | nil => exact absurd hlist hoffered
  | cons q qs =>
    rw [hlist] at hrest
    cases hack : i.busAck with
    | false => simp [Slave.rest, hack] at hrest
    | true =>
      have hqs : qs = [] := by simpa [Slave.rest, hack] using hrest
      simp [reqLast, ack, answer, Slave.answer, hlist, hack, hqs]

theorem Live.filling_next (h : Live s) (hs : Serves i s) (hstate : s.r.state = .readline)
    (hends : fillEnds i s = false) (hdone : (next i s).r.fillRDone = true) :
    (next i s).bus ≠ [] := by
  intro hbus
  have hdone : s.r.fillRDone = true ∨ takes i s = true ∧ s.r.count = 0 := by
    rw [r_next_readline hstate] at hdone
    simpa [readlineNext] using hdone
  rcases hdone with hdone | ⟨htakes, hcount⟩
  · have hoffered : offered i s ≠ [] := by
      have hbus := h.filling hstate hdone
      simpa [offered, busRequest, hdone] using hbus
    have hlast := reqLast_of_bus hoffered hbus
    have hack : ack i s = true := by
      simp only [reqLast, Bool.and_eq_true] at hlast
      exact hlast.1
    simp [fillEnds, hack, hdone, hlast] at hends
  · have hoffered : offered i s ≠ [] := by
      obtain ⟨hstall, hdone⟩ : i.busStall = false ∧ s.r.fillRDone = false := by
        simpa [takes] using htakes
      simp [offered, Slave.offered, busRequest, hstall, hdone, hstate]
    have hlast := reqLast_of_bus hoffered hbus
    rw [hs.fill hstate htakes hcount] at hlast
    cases hlast

/-- A state in which nothing has to be shown of the bus and the tags. -/
theorem Live.plain (hc : Control s) (hflush : s.r.state ≠ .flush)
    (hin : s.r.inFlush = true → s.r.req = false)
    (hread : s.r.state = .readline → s.r.fillRDone = false)
    (hlate : ¬ (s.r.state = .writeAfterFill ∨ s.r.state = .settle)) : Live s where
  control := hc
  flushing h := hin (h.resolve_left hflush)
  filling hstate hdone := by
    rw [hread hstate] at hdone
    cases hdone
  fetched h := absurd h hlate

theorem Live.flushed (hc : Control s) (hstate : s.r.state = .flush) (hreq : s.r.req = false) :
    Live s where
  control := hc
  flushing _ := hreq
  filling hstate' := by
    rw [hstate] at hstate'
    cases hstate'
  fetched hstate' := by
    rw [hstate] at hstate'
    rcases hstate' with hstate' | hstate' <;> cases hstate'

theorem Live.step_idle (hc : Control (next i s)) (hs : Serves i s) (hstate : s.r.state = .idle)
    (hflush : s.r.inFlush = false) : Live (next i s) := by
  have hin : Keeps s (next i s) → (next i s).r.inFlush = true → (next i s).r.req = false := by
    intro hkeeps hyes
    rw [hkeeps.inFlush, hflush] at hyes
    cases hyes
  cases idleStep (i := i) hstate with
  | accepts _ hr =>
    have hstate' : (next i s).r.state = .idle := by
      rw [hr]
      exact hstate
    refine .plain hc ?_ ?_ ?_ ?_ <;> try simp [hstate']
    intro hyes
    have hno : (next i s).r.inFlush = false := by
      rw [hr]
      exact hflush
    rw [hno] at hyes
    cases hyes
  | flushes hreq hkeeps hstate' _ =>
    exact .flushed hc hstate' (hkeeps.req.trans (hs.flush hstate hreq))
  | direct _ _ hkeeps hstate' =>
    exact .plain hc (by simp [hstate']) (hin hkeeps) (by simp [hstate']) (by simp [hstate'])
  | evicts _ _ _ hkeeps hstate' =>
    refine .plain hc ?_ (hin hkeeps) ?_ ?_ <;> rw [hstate'] <;> cases s.r.request.we <;> simp
  | fills _ _ _ _ hkeeps hstate' _ hstart =>
    exact .plain hc (by simp [hstate']) (hin hkeeps) (fun _ => hstart.done) (by simp [hstate'])

theorem Live.step_readline (h : Live s) (hs : Serves i s) (hstate : s.r.state = .readline)
    (hmissed : Missed s) : Live (next i s) := by
  have hc : Control (next i s) := h.control.step
  have hr := r_next_readline (i := i) hstate
  have hin : (next i s).r.inFlush = false := by
    rw [hr]
    exact hmissed.inFlush
  cases hends : fillEnds i s with
  | false =>
    have hstate' : (next i s).r.state = .readline := by
      rw [hr]
      simp [readlineNext, hends, hstate]
    refine ⟨hc, ?_, fun _ => h.filling_next hs hstate hends, ?_⟩ <;> simp [hstate', hin]
  | true =>
    have hstate' : (next i s).r.state = if s.r.request.we then .writeAfterFill else .settle := by
      rw [hr]
      simp [readlineNext, hends]
    have hrequest : (next i s).r.request = s.r.request := by
      rw [hr]
      rfl
    refine ⟨hc, ?_, ?_, fun _ => ?_⟩
    · rw [hstate', hin]
      cases s.r.request.we <;> simp
    · rw [hstate']
      cases s.r.request.we <;> simp
    · rw [hrequest, tmem_next_filled hstate hends, hmissed.line, hmissed.tag, Function.update_self]
      exact ⟨rfl, rfl⟩

/-- A line goes out; a flush has no request that waits. -/
theorem Live.step_writeback {taken acked : Nat} (h : Live s) (hstate : s.r.state = .writeback)
    (hwhy : Sweeping s ∨ Missed s ∧ s.r.req = true) (hburst : WritebackBurst s taken acked) :
    Live (next i s) := by
  have hc : Control (next i s) := h.control.step
  cases hends : writebackEnds i s with
  | false =>
    have hr := r_next_writeback hstate hends
    have hstate' : (next i s).r.state = .writeback := by
      rw [hr]
      exact hstate
    refine .plain hc ?_ ?_ ?_ ?_ <;> try simp [hstate']
    intro hyes
    rw [hr] at hyes ⊢
    exact h.flushing (.inr hyes)
  | true =>
    rcases hwhy with hsweep | ⟨hmissed, hreq⟩
    · obtain ⟨hstate', hsame, -⟩ := writeback_flushes hstate hsweep.inFlush hends
      exact .flushed hc hstate' (hsame.req.trans (h.flushing (.inr hsweep.inFlush)))
    · obtain ⟨hstate', hmissed', -, hburst', -⟩ := writeback_fills hstate hmissed hreq hburst hends
      refine .plain hc (by simp [hstate']) ?_ (fun _ => ?_) (by simp [hstate'])
      · intro hyes
        rw [hmissed'.inFlush] at hyes
        cases hyes
      · by_contra hdone
        have := hburst'.asked (by simpa using hdone)
        omega

theorem Live.step_flush (h : Live s) (hstate : s.r.state = .flush) : Live (next i s) := by
  have hc : Control (next i s) := h.control.step
  have hreq := h.flushing (.inl hstate)
  cases flushStep (i := i) hstate with
  | victim _ hstate' _ _ _ _ _ hsame =>
    exact .plain hc (by simp [hstate']) (fun _ => hsame.req.trans hreq) (by simp [hstate'])
      (by simp [hstate'])
  | clears _ _ hstate' _ _ hsame => exact .flushed hc hstate' (hsame.req.trans hreq)
  | ends _ _ hstate' _ hsame =>
    exact .plain hc (by simp [hstate']) (fun _ => hsame.req.trans hreq) (by simp [hstate'])
      (by simp [hstate'])

/-- Every clock that serves keeps the requests going. -/
theorem Live.step (h : Live s) (hs : Serves i s) : Live (next i s) := by
  have hc : Control (next i s) := h.control.step
  cases h.control with
  | idle hstate hflush => exact .step_idle hc hs hstate hflush
  | readline _ _ hstate hmissed => exact h.step_readline hs hstate hmissed
  | writeback _ _ hstate hwhy hburst => exact h.step_writeback hstate hwhy hburst
  | flush hstate => exact h.step_flush hstate
  | directmemory hstate hflush =>
    have hr := r_next_directmemory (i := i) hstate
    have hstate' : (next i s).r.state = .idle ∨ (next i s).r.state = .directmemory := by
      rw [hr]
      cases ack i s
      · exact .inr hstate
      · exact .inl rfl
    have hin : (next i s).r.inFlush = false := by
      rw [hr]
      cases ack i s <;> exact hflush
    refine .plain hc ?_ (by simp [hin]) ?_ ?_ <;> rcases hstate' with h' | h' <;> simp [h']
  | recover hstate hmissed =>
    have hcase : caseNext i s = { defaults s with fillRDone := false, state := .preparewb } := by
      simp [caseNext, hstate]
    have hr := r_next_of hcase
    refine .plain hc ?_ ?_ ?_ ?_ <;> rw [hr] <;> try simp
    exact fun hyes => absurd hyes (by simp [defaults, hmissed.inFlush])
  | preparewb hstate =>
    have hr := r_next_preparewb (i := i) hstate
    refine .plain hc ?_ ?_ ?_ ?_ <;> rw [hr] <;> try simp
    exact fun hyes => h.flushing (.inr hyes)
  | writeAfterFill hstate hmissed =>
    have hcase : caseNext i s = { defaults s with state := .settle } := by
      simp [caseNext, hstate]
    have hr := r_next_of hcase
    have htmem : (next i s).tmem = s.tmem :=
      tmem_next_busy (by simp [hstate]) (by simp [hstate]) (by simp [hstate])
    refine ⟨hc, ?_, ?_, fun _ => ?_⟩
    · rw [hr]
      simp [defaults, hmissed.inFlush]
    · rw [hr]
      simp
    · rw [htmem, hr]
      exact h.fetched (.inl hstate)
  | settle hstate hmissed =>
    have hcase : caseNext i s = { defaults s with state := .idle } := by
      simp [caseNext, hstate]
    have hr := r_next_of hcase
    refine .plain hc ?_ ?_ ?_ ?_ <;> rw [hr] <;> simp [defaults, hmissed.inFlush]

/-! ## How far a request is -/

/-- Two for each word of a burst that is to be asked for, one for each that is outstanding. -/
def inBurst (s : Dcache t l) : Nat :=
  2 * (if s.r.fillRDone then 0 else s.r.count + 1) + s.bus.length

def rank (s : Dcache t l) : Nat :=
  match s.r.state with
  | .idle => if miss s then 200 else 0
  | .recover => 150
  | .preparewb => 140
  | .writeback => 80 + inBurst s
  | .readline => 40 + inBurst s
  | .directmemory => 10 + 2 * (if s.r.fillRDone then 0 else 1) + s.bus.length
  | .writeAfterFill => 3
  | .settle => 2
  | .flush => 0

/-- What the bus has to do for the request. -/
def helps (i : DcacheInput t l) (s : Dcache t l) : Bool :=
  if s.r.fillRDone then i.busAck else !i.busStall

/-- The clock does not bring the request on, since the bus does nothing for it. -/
structure Waits (i : DcacheInput t l) (s : Dcache t l) : Prop where
  rank : Dcache.rank (next i s) = Dcache.rank s
  done : (next i s).r.fillRDone = s.r.fillRDone
  idle : helps i s = false
  outstanding : s.r.fillRDone = true → s.bus ≠ []

/-- A clock of a burst. -/
theorem inBurst_next (hstate : s.r.state = .readline ∨ s.r.state = .writeback)
    (hdone : (next i s).r.fillRDone = (s.r.fillRDone || (takes i s && s.r.count == 0)))
    (hcount : (next i s).r.count =
      if takes i s && s.r.count != 0 then s.r.count - 1 else s.r.count)
    (hbus : s.r.fillRDone = true → s.bus ≠ []) :
    inBurst (next i s) < inBurst s ∨
      inBurst (next i s) = inBurst s ∧ (next i s).r.fillRDone = s.r.fillRDone ∧
        helps i s = false := by
  have hbus' : (next i s).bus = Slave.rest i.busAck (offered i s) := rfl
  cases htakes : takes i s with
  | true =>
    obtain ⟨hstall, hno⟩ : i.busStall = false ∧ s.r.fillRDone = false := by
      simpa [takes] using htakes
    obtain ⟨q, hq⟩ : ∃ q, busRequest i s = some q := by
      rcases hstate with hstate | hstate <;> simp [busRequest, hstall, hno, hstate]
    have hlen : (next i s).bus.length ≤ s.bus.length + 1 := by
      rw [hbus', offered, hq]
      cases i.busAck <;> simp [Slave.rest, Slave.offered]
    left
    rw [inBurst, inBurst, hdone, hcount, hno, htakes]
    by_cases h0 : s.r.count = 0
    · simp [h0]
      omega
    · have hne : (s.r.count == 0) = false := by simpa using h0
      have hne' : (s.r.count != 0) = true := by simpa using h0
      simp only [hne, hne', Bool.and_true, Bool.and_false, Bool.or_false, if_true,
        Bool.false_eq_true, if_false]
      omega
  | false =>
    have hnone : busRequest i s = none := by
      cases hstall : i.busStall <;> cases hno : s.r.fillRDone <;> simp_all [takes, busRequest]
    rw [htakes] at hdone hcount
    simp only [Bool.false_and, Bool.or_false, Bool.false_eq_true, if_false] at hdone hcount
    -- what helps is an answer, if something is outstanding
    have hidle : s.bus = [] ∨ i.busAck = false → helps i s = false := by
      intro hcase
      cases hno : s.r.fillRDone with
      | true => simpa [helps, hno] using hcase.resolve_left (hbus hno)
      | false =>
        have hstall : i.busStall = true := by simpa [takes, hno] using htakes
        simp [helps, hno, hstall]
    rw [inBurst, inBurst, hdone, hcount, hbus', offered, hnone, Slave.offered_none]
    cases hlist : s.bus with
    | nil => exact .inr ⟨by simp, rfl, hidle (.inl hlist)⟩
    | cons q qs =>
      cases hbusAck : i.busAck with
      | false => exact .inr ⟨by simp [Slave.rest], rfl, hidle (.inr hbusAck)⟩
      | true =>
        left
        simp [Slave.rest]

theorem inBurst_start (hdone : s.r.fillRDone = false) (hcount : s.r.count = 15)
    (hbus : s.bus = []) : inBurst s = 32 := by
  simp [inBurst, hdone, hcount, hbus]

theorem progress_idle (hs : Serves i s) (hreq : s.r.req = true) (hvalid : valid i s = false)
    (hstate : s.r.state = .idle) (hbus : s.bus = []) : rank (next i s) < rank s := by
  have hbus' := (bus_quiet (i := i) (by simp [OnBus, hstate]) hbus).2.1
  have hmiss : miss s = true := by simpa [valid, hstate, hreq] using hvalid
  have hrank : rank s = 200 := by simp [rank, hstate, hmiss]
  rw [hrank]
  cases idleStep (i := i) hstate with
  | accepts hbusy => simp [willBusy, hmiss] at hbusy
  | flushes hflush =>
    rw [hs.flush hstate hflush] at hreq
    cases hreq
  | direct _ _ _ hstate' hdone' => simp [rank, hstate', hdone', hbus']
  | evicts _ _ _ _ hstate' =>
    rw [rank, hstate']
    cases s.r.request.we <;> simp
  | fills _ _ _ _ _ hstate' _ hstart =>
    simp [rank, hstate', inBurst_start hstart.done hstart.count hbus']

theorem progress_directmemory (hstate : s.r.state = .directmemory) (hvalid : valid i s = false)
    (hbus : s.bus = if s.r.fillRDone then [directRequest s] else []) :
    rank (next i s) < rank s ∨ Waits i s := by
  have hack : ack i s = false := by simpa [valid, hstate] using hvalid
  have hbus' := direct_waits hstate hbus hack
  have hr := r_next_directmemory (i := i) hstate
  rw [hack, if_neg Bool.false_ne_true] at hr
  have hstate' : (next i s).r.state = .directmemory := by
    rw [hr]
    exact hstate
  have hdone' : (next i s).r.fillRDone = (s.r.fillRDone || !i.busStall) := by
    rw [hr]
  have hrank : rank s = if s.r.fillRDone then 11 else 12 := by
    rw [rank, hstate, hbus]
    cases s.r.fillRDone <;> rfl
  have hrank' : rank (next i s) = if (next i s).r.fillRDone then 11 else 12 := by
    rw [rank, hstate', hbus']
    cases (next i s).r.fillRDone <;> rfl
  cases hdone : s.r.fillRDone with
  | false =>
    cases hstall : i.busStall with
    | false =>
      left
      rw [hrank, hrank', hdone', hdone, hstall]
      decide
    | true =>
      right
      have hsame : (next i s).r.fillRDone = s.r.fillRDone := by simp [hdone', hdone, hstall]
      refine ⟨by rw [hrank, hrank', hsame], hsame, by simp [helps, hdone, hstall], ?_⟩
      simp [hdone]
  | true =>
    right
    have hsame : (next i s).r.fillRDone = s.r.fillRDone := by simp [hdone', hdone]
    have hlist : s.bus = [directRequest s] := by rw [hbus, hdone]; rfl
    refine ⟨by rw [hrank, hrank', hsame], hsame, ?_, by simp [hlist]⟩
    have hanswer : Slave.answer i.busAck (offered i s) = none := by simpa [ack, answer] using hack
    have hoffered : offered i s = [directRequest s] := by simp [offered, busRequest, hdone, hlist]
    rw [hoffered] at hanswer
    cases hbusAck : i.busAck with
    | false => simp [helps, hdone, hbusAck]
    | true => simp [Slave.answer, hbusAck] at hanswer

theorem Live.progress_writeback {taken acked : Nat} (h : Live s) (hreq : s.r.req = true)
    (hstate : s.r.state = .writeback) (hwhy : Sweeping s ∨ Missed s ∧ s.r.req = true)
    (hburst : WritebackBurst s taken acked) : rank (next i s) < rank s ∨ Waits i s := by
  have hrank : rank s = 80 + inBurst s := by simp [rank, hstate]
  cases hends : writebackEnds i s with
  | false =>
    have hr := r_next_writeback hstate hends
    have hstate' : (next i s).r.state = .writeback := by
      rw [hr]
      exact hstate
    have hrank' : rank (next i s) = 80 + inBurst (next i s) := by simp [rank, hstate']
    have hout : s.r.fillRDone = true → s.bus ≠ [] := by
      intro hdone hnil
      have htaken := (hburst.asked hdone).1
      have hlen := congrArg List.length (hburst.bus.symm.trans hnil)
      rw [Slave.length_burst] at hlen
      have := hburst.order
      simp at hlen
      omega
    rcases inBurst_next (i := i) (.inr hstate) (by rw [hr]) (by rw [hr]) hout with
      hlt | ⟨heq, hdone, hidle⟩
    · left
      omega
    · exact .inr ⟨by omega, hdone, hidle, hout⟩
  | true =>
    left
    rcases hwhy with hsweep | ⟨hmissed, -⟩
    · rw [h.flushing (.inr hsweep.inFlush)] at hreq
      cases hreq
    · obtain ⟨hstate', -, -, hburst', -⟩ := writeback_fills hstate hmissed hreq hburst hends
      have hbus' := (hburst.drained hstate hends).2
      have hdone' : (next i s).r.fillRDone = false := by
        by_contra hdone
        have := hburst'.asked (by simpa using hdone)
        omega
      have hcount := (hburst'.asking hdone').2.1
      have hrank' : rank (next i s) = 72 := by
        simp [rank, hstate', inBurst_start hdone' (by omega) hbus']
      omega

theorem Live.progress_readline (h : Live s) (hstate : s.r.state = .readline) :
    rank (next i s) < rank s ∨ Waits i s := by
  have hr := r_next_readline (i := i) hstate
  have hrank : rank s = 40 + inBurst s := by simp [rank, hstate]
  cases hends : fillEnds i s with
  | false =>
    have hstate' : (next i s).r.state = .readline := by
      rw [hr]
      simp [readlineNext, hends, hstate]
    have hrank' : rank (next i s) = 40 + inBurst (next i s) := by simp [rank, hstate']
    rcases inBurst_next (i := i) (.inl hstate) (by rw [hr]; rfl) (by rw [hr]; rfl)
      (h.filling hstate) with hlt | ⟨heq, hdone, hidle⟩
    · left
      omega
    · exact .inr ⟨by omega, hdone, hidle, h.filling hstate⟩
  | true =>
    left
    have hstate' : (next i s).r.state = if s.r.request.we then .writeAfterFill else .settle := by
      rw [hr]
      simp [readlineNext, hends]
    have hrank' : rank (next i s) ≤ 3 := by
      rw [rank, hstate']
      cases s.r.request.we <;> simp
    omega

/-- A request that is not acknowledged gets closer to it, or the bus keeps it waiting. -/
theorem Live.progress (h : Live s) (hs : Serves i s) (hreq : s.r.req = true)
    (hvalid : valid i s = false) : rank (next i s) < rank s ∨ Waits i s := by
  cases h.control with
  | idle hstate _ hbus => exact .inl (progress_idle hs hreq hvalid hstate hbus)
  | directmemory hstate _ _ hbus => exact progress_directmemory hstate hvalid hbus
  | recover hstate =>
    left
    have hcase : caseNext i s = { defaults s with fillRDone := false, state := .preparewb } := by
      simp [caseNext, hstate]
    have hstate' : (next i s).r.state = .preparewb := by rw [r_next_of hcase]
    simp [rank, hstate, hstate']
  | preparewb hstate _ hbus _ hdone =>
    left
    have hr := r_next_preparewb (i := i) hstate
    have hbus' := (bus_quiet (i := i) (by simp [OnBus, hstate]) hbus).2.1
    have hburst : inBurst (next i s) = 32 := by
      apply inBurst_start _ _ hbus' <;> rw [hr]
      · exact hdone
      · rfl
    have hstate' : (next i s).r.state = .writeback := by rw [hr]
    simp [rank, hstate, hstate', hburst]
  | writeback _ _ hstate hwhy hburst => exact h.progress_writeback hreq hstate hwhy hburst
  | readline _ _ hstate => exact h.progress_readline hstate
  | writeAfterFill hstate =>
    left
    have hcase : caseNext i s = { defaults s with state := .settle } := by
      simp [caseNext, hstate]
    have hstate' : (next i s).r.state = .settle := by rw [r_next_of hcase]
    simp [rank, hstate, hstate']
  | settle hstate hmissed =>
    left
    have hcase : caseNext i s = { defaults s with state := .idle } := by
      simp [caseNext, hstate]
    have hr := r_next_of hcase
    have hstate' : (next i s).r.state = .idle := by rw [hr]
    have hrequest : (next i s).r.request = s.r.request := by rw [hr]; rfl
    -- the entry is read in this state
    have hdoa : (next i s).tmemDoa = s.tmem s.r.request.addr.line := by
      show (tmemA i s).read s.tmem s.tmemDoa = _
      simp [Ram.Port.read, tmemA, hstate]
    obtain ⟨hentry, htag⟩ := h.fetched (.inr hstate)
    have hmiss : miss (next i s) = false := by
      simp [miss, hit, hdoa, hentry, hrequest, htag, hmissed.cached]
    simp [rank, hstate, hstate', hmiss]
  | flush hstate =>
    rw [h.flushing (.inl hstate)] at hreq
    cases hreq

/-! ## Every run -/

section Run

variable (s₀ : Dcache t l) (inputs : Nat → DcacheInput t l)

def acceptedTags (n : Nat) : List Word :=
  (List.range n).flatMap fun k => acceptedTag (inputs k) (run s₀ inputs k)

def acknowledgedTags (n : Nat) : List Word :=
  (List.range n).flatMap fun k => acknowledgedTag (inputs k) (run s₀ inputs k)

variable {s₀ inputs}

theorem acceptedTags_succ (n : Nat) : acceptedTags s₀ inputs (n + 1) =
    acceptedTags s₀ inputs n ++ acceptedTag (inputs n) (run s₀ inputs n) := by
  simp [acceptedTags, List.range_succ]

theorem acknowledgedTags_succ (n : Nat) : acknowledgedTags s₀ inputs (n + 1) =
    acknowledgedTags s₀ inputs n ++ acknowledgedTag (inputs n) (run s₀ inputs n) := by
  simp [acknowledgedTags, List.range_succ]

theorem acceptedTags_mono {m n : Nat} (h : m ≤ n) :
    acceptedTags s₀ inputs m <+: acceptedTags s₀ inputs n := by
  induction n, h using Nat.le_induction with
  | base => exact List.prefix_rfl
  | succ n _ ih =>
    rw [acceptedTags_succ]
    exact ih.trans (List.prefix_append _ _)

theorem acknowledgedTags_mono {m n : Nat} (h : m ≤ n) :
    acknowledgedTags s₀ inputs m <+: acknowledgedTags s₀ inputs n := by
  induction n, h using Nat.le_induction with
  | base => exact List.prefix_rfl
  | succ n _ ih =>
    rw [acknowledgedTags_succ]
    exact ih.trans (List.prefix_append _ _)

/-- Everything that was accepted has been acknowledged, in order, but for the request that is in
the cache. -/
theorem acceptedTags_eq (hreset : Reset s₀) (hserves : ∀ k, Serves (inputs k) (run s₀ inputs k))
    (n : Nat) : acceptedTags s₀ inputs n =
      acknowledgedTags s₀ inputs n ++ pendingTag (run s₀ inputs n) := by
  induction n with
  | zero => simp [acceptedTags, acknowledgedTags, pendingTag, hreset.req]
  | succ n ih =>
    have hstep := (control_run hreset inputs n).conserved (hserves n)
    rw [acceptedTags_succ, acknowledgedTags_succ, ih, List.append_assoc, List.append_assoc, ← hstep]
    rfl

theorem live_run (hreset : Reset s₀) (hserves : ∀ k, Serves (inputs k) (run s₀ inputs k))
    (n : Nat) : Live (run s₀ inputs n) :=
  Run.invariant Live Serves hreset.live (fun _ _ hs h => h.step hs) n fun k _ => hserves k

theorem req_next (h : Live s) (hs : Serves i s) (hreq : s.r.req = true)
    (hvalid : valid i s = false) : (next i s).r.req = true := by
  have hstep := h.control.conserved hs
  by_contra hno
  simp [acknowledgedTag, hvalid, pendingTag, hreq, hno] at hstep

theorem acknowledged_eventually (hreset : Reset s₀)
    (hserves : ∀ k, Serves (inputs k) (run s₀ inputs k))
    (hstall : ∀ n, ∃ m ≥ n, (inputs m).busStall = false)
    (hanswers : ∀ n, (run s₀ inputs n).bus ≠ [] → ∃ m ≥ n, (inputs m).busAck = true)
    (n : Nat) (hreq : (run s₀ inputs n).r.req = true) :
    ∃ m ≥ n, valid (inputs m) (run s₀ inputs m) = true := by
  by_cases hnow : valid (inputs n) (run s₀ inputs n) = true
  · exact ⟨n, le_refl _, hnow⟩
  let waiting (k : Nat) : Prop :=
    (run s₀ inputs k).r.req = true ∧ valid (inputs k) (run s₀ inputs k) = false
  -- the clock after one in which a request waits
  have hafter : ∀ k, waiting k →
      valid (inputs (k + 1)) (run s₀ inputs (k + 1)) = true ∨ waiting (k + 1) := by
    intro k hk
    have hreq' := req_next (live_run hreset hserves k) (hserves k) hk.1 hk.2
    cases hv : valid (inputs (k + 1)) (run s₀ inputs (k + 1)) with
    | true => exact .inl rfl
    | false => exact .inr ⟨hreq', hv⟩
  have hdown : ∀ k, waiting k → ∃ m > k, valid (inputs m) (run s₀ inputs m) = true ∨
      waiting m ∧ rank (run s₀ inputs m) < rank (run s₀ inputs k) := by
    intro k hk
    have hgoes := fun j (hj : waiting j) =>
      (live_run hreset hserves j).progress (hserves j) hj.1 hj.2
    rcases hgoes k hk with hlt | hwaits
    · exact ⟨k + 1, by omega, (hafter k hk).imp_right fun hw => ⟨hw, hlt⟩⟩
    · refine Run.eventually_of_event
        (fun j => waiting j ∧ rank (run s₀ inputs j) = rank (run s₀ inputs k) ∧
          (run s₀ inputs j).r.fillRDone = (run s₀ inputs k).r.fillRDone)
        (fun j => helps (inputs j) (run s₀ inputs k) = true) ?_ ⟨hk, rfl, rfl⟩ ?_
      · rintro j ⟨hj, hrank, hdone⟩
        rcases hgoes j hj with hlt | hwaits'
        · exact .inl ((hafter j hj).imp_right fun hw => ⟨hw, hrank ▸ hlt⟩)
        · rcases hafter j hj with hv | hw
          · exact .inl (.inl hv)
          · refine .inr ⟨⟨hw, hwaits'.rank.trans hrank, hwaits'.done.trans hdone⟩, ?_⟩
            have hidle := hwaits'.idle
            simp only [helps, hdone] at hidle ⊢
            simp [hidle]
      · cases hdone : (run s₀ inputs k).r.fillRDone with
        | true =>
          obtain ⟨m, hm, hack⟩ := hanswers k (hwaits.outstanding hdone)
          exact ⟨m, hm, by simp [helps, hdone, hack]⟩
        | false =>
          obtain ⟨m, hm, hfree⟩ := hstall k
          exact ⟨m, hm, by simp [helps, hdone, hfree]⟩
  obtain ⟨m, hm, hv⟩ := Run.eventually_of_rank (fun k => rank (run s₀ inputs k)) hdown
    ⟨hreq, by simpa using hnow⟩
  exact ⟨m, by omega, hv⟩

/-- In a run whose clocks serve, with a slave that takes and answers what it is asked for, the
acknowledgements are those of the accepted requests, in order: none that was not accepted, and in
time every one that was. -/
theorem acknowledged_once {s₀ : Dcache t l} (inputs : Nat → DcacheInput t l) (hreset : Reset s₀)
    (hserves : ∀ k, Serves (inputs k) (run s₀ inputs k))
    (hstall : ∀ n, ∃ m ≥ n, (inputs m).busStall = false)
    (hanswers : ∀ n, (run s₀ inputs n).bus ≠ [] → ∃ m ≥ n, (inputs m).busAck = true) :
    (∀ n, acknowledgedTags s₀ inputs n <+: acceptedTags s₀ inputs n) ∧
      ∀ n, ∃ m ≥ n, acceptedTags s₀ inputs n <+: acknowledgedTags s₀ inputs m := by
  have heq := acceptedTags_eq hreset hserves
  have hsafe : ∀ n, acknowledgedTags s₀ inputs n <+: acceptedTags s₀ inputs n := by
    intro n
    rw [heq n]
    exact List.prefix_append _ _
  refine ⟨hsafe, fun n => ?_⟩
  cases hreq : (run s₀ inputs n).r.req with
  | false =>
    refine ⟨n, le_refl _, ?_⟩
    rw [heq n]
    simp [pendingTag, hreq]
  | true =>
    obtain ⟨m, hm, hv⟩ := acknowledged_eventually hreset hserves hstall hanswers n hreq
    refine ⟨m + 1, by omega, ?_⟩
    -- one more has been acknowledged than at `n`, and no more than that was open
    refine List.prefix_of_prefix_length_le (acceptedTags_mono (by omega : n ≤ m + 1))
      (hsafe (m + 1)) ?_
    have hlen : (acknowledgedTags s₀ inputs n).length ≤ (acknowledgedTags s₀ inputs m).length :=
      (acknowledgedTags_mono hm).length_le
    rw [heq n, acknowledgedTags_succ]
    simp [pendingTag, hreq, acknowledgedTag, hv]
    omega

end Run

/-- Nothing in the cache, and no flush to come. -/
structure Resting (s : Dcache t l) : Prop where
  state : s.r.state = .idle
  req : s.r.req = false
  flushReq : s.r.flushReq = false

theorem Resting.serves (h : Resting s) : Serves i s where
  flush _ _ := h.req
  fill hstate := by
    rw [h.state] at hstate
    cases hstate

theorem Resting.step (h : Resting s) (hstrobe : i.strobe = false) (hflush : i.flush = false) :
    Resting (next i s) := by
  have hmiss : miss s = false := by simp [miss, h.req]
  cases idleStep (i := i) h.state with
  | accepts _ hr =>
    constructor <;> rw [hr]
    · exact h.state
    · simp [accept, hstrobe]
    · simp [hflush, h.flushReq]
  | flushes hreq => rw [h.flushReq] at hreq; cases hreq
  | direct hno => rw [hmiss] at hno; cases hno
  | evicts hno => rw [hmiss] at hno; cases hno
  | fills hno => rw [hmiss] at hno; cases hno

def taggedRead (a : Address t l) (w : Word) : DcacheRequest t l := ⟨a, false, 15, 0, w, .wt⟩

/-- A read that misses, and a read of the other tag at the same line that misses after it. -/
def twoReads (k : Nat) : DcacheInput 1 1 :=
  { DcacheInput.offering (if k ≤ 4 then taggedRead ⟨0, 1, 5⟩ 1 else taggedRead ⟨1, 1, 5⟩ 2)
      (k ≠ 6 ∧ k ≠ 27) with strobe := decide (k ≤ 24) }

instance (i : DcacheInput t l) (s : Dcache t l) : Decidable (Serves i s) :=
  decidable_of_iff _ (serves_iff ..).symm

theorem twoReads_serves (k : Nat) : Serves (twoReads k) (run (reset fun _ => 5) twoReads k) := by
  by_cases hk : k < 44
  · have hall : ∀ k < 44, Serves (twoReads k) (run (reset fun _ => 5) twoReads k) := by
      decide +kernel
    exact hall k hk
  · have hrest : ∀ k, 44 ≤ k → Resting (run (reset fun _ => 5) twoReads k) := by
      intro k hk
      induction k, hk using Nat.le_induction with
      | base => exact ⟨by decide +kernel, by decide +kernel, by decide +kernel⟩
      | succ k hk ih => exact ih.step (by simp [twoReads]; omega) rfl
    exact (hrest k (by omega)).serves

theorem acknowledged_once_twoReads :
    acceptedTags (reset fun _ => 5) twoReads 44 = [1, 2] ∧
      (∀ n, acknowledgedTags (reset fun _ => 5) twoReads n <+:
        acceptedTags (reset fun _ => 5) twoReads n) ∧
      ∀ n, ∃ m ≥ n, acceptedTags (reset fun _ => 5) twoReads n <+:
        acknowledgedTags (reset fun _ => 5) twoReads m :=
  ⟨by decide +kernel, acknowledged_once twoReads (reset_reset _) twoReads_serves
    (fun n => ⟨n, le_refl _, rfl⟩)
    (fun n _ => ⟨n + 28, by omega, by simp [twoReads, DcacheInput.offering]⟩)⟩

/-- Two reads of one word, and a flush pulse with the second. -/
def flushedHit (k : Nat) : DcacheInput 19 1 :=
  { DcacheInput.offering (taggedRead ⟨0, 1, 5⟩ (if k ≤ 4 then 1 else 2)) (k ≠ 6) with
    strobe := decide (k ≤ 24), flush := k == 24 }

/-- The second read is a hit when the flush begins: it is acknowledged, stays in the cache and is
acknowledged again after the flush. -/
theorem acknowledged_twice :
    Reset (reset fun _ : Address 19 1 => 5) ∧
      (∀ n, ∃ m ≥ n, (flushedHit m).busStall = false) ∧
      (∀ n, ∃ m ≥ n, (flushedHit m).busAck = true) ∧
      acceptedTags (reset fun _ => 5) flushedHit 32 = [1, 2] ∧
      acknowledgedTags (reset fun _ => 5) flushedHit 32 = [1, 2, 2] := by
  refine ⟨reset_reset _, fun n => ⟨n, le_refl _, rfl⟩, fun n => ⟨n + 7, by omega, ?_⟩, ?_⟩
  · simp [flushedHit, DcacheInput.offering]
  · decide +kernel

end Dcache

end Xtc
