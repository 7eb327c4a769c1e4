import Xtc.Cache.DcacheData

/-!
# DcacheStep — every clock of the data cache keeps what it holds
-/

namespace Xtc

namespace Dcache

open WriteBack (Coherent CoherentOff Holds Entry Write)

variable {t l : Nat} {i : DcacheInput t l} {o : Observed t l}

/-! ## What a clock does to the memory that is shown -/

theorem accepted_of_stall (h : stall i o.cache = true) : accepted i o.cache = none := by
  simp [accepted, h]

theorem spec_next_of_stall (h : stall i o.cache = true) : (o.next i).spec = o.spec := by
  show specNext o.spec (accepted i o.cache) = _
  rw [accepted_of_stall h]
  rfl

theorem last_next_of_stall (h : stall i o.cache = true) : (o.next i).last = o.last := by
  show (accepted i o.cache).or o.last = _
  rw [accepted_of_stall h]
  rfl

theorem heldWrite_next_of_stall (h : stall i o.cache = true) :
    heldWrite (o.next i) = i.offers.bind cacheWrite := by
  show (if stall i o.cache then i.offers else none).bind cacheWrite = _
  rw [h]
  rfl

theorem Kept.passesBy (hk : Kept i o) (hq : i.request ∈ accepted i o.cache)
    (hcached : i.request.cached = false) :
    PassesBy (o.cache.tmem i.request.addr.line) i.request := by
  rintro ⟨hvalid, htag⟩
  obtain ⟨hread, hclean, -⟩ := hk.nocache i.request hq hcached hvalid htag
  exact ⟨hread, hclean⟩

theorem Kept.heldWrite (hk : Kept i o) :
    heldWrite o = none ∨ heldWrite o = i.offers.bind cacheWrite := by
  cases hheld : o.held with
  | none => exact .inl (by simp [Dcache.heldWrite, hheld])
  | some q => exact .inr (by simp [Dcache.heldWrite, hheld, hk.hold q hheld])

theorem Kept.heldWrite_next (hk : Kept i o) (h : stall i o.cache = true) :
    Dcache.heldWrite o = none ∨ Dcache.heldWrite o = Dcache.heldWrite (o.next i) := by
  rw [heldWrite_next_of_stall h]
  exact hk.heldWrite

theorem Pending.next_of_stall (hp : Pending o) (h : stall i o.cache = true)
    (hrequest : (next i o.cache).r.request = o.cache.r.request) : Pending (o.next i) := by
  constructor
  · rw [last_next_of_stall h, hp.last]
    exact congrArg some hrequest.symm
  · rw [spec_next_of_stall h]
    show (next i o.cache).r.request.we = true → (next i o.cache).r.request.write.upd
      (o.spec (next i o.cache).r.request.addr) = o.spec (next i o.cache).r.request.addr
    rw [hrequest]
    exact hp.applied

theorem cacheWrite_of_cached {q : DcacheRequest t l} (h : q.cached = true) :
    cacheWrite q = inFlight q := by
  simp [cacheWrite, inFlight, h]

theorem cacheWrite_of_uncached {q : DcacheRequest t l} (h : q.cached = false) :
    cacheWrite q = none := by
  simp [cacheWrite, h]

/-! ## A request is accepted -/

theorem applied_of_accept (spec : Address t l → Word) (q : DcacheRequest t l) :
    q.we = true → q.write.upd (specNext spec (some q) q.addr) = specNext spec (some q) q.addr := by
  intro hwe
  have hspec : specNext spec (some q) q.addr = merge q.wmask q.data (spec q.addr) := by
    simp [specNext, hwe]
  rw [hspec]
  exact merge_merge _ _ _

theorem Coherent.accepts {tags : BitVec l → Entry (BitVec t)} {cm : BitVec l × LineOffset → Word}
    {mem spec : Address t l → Word} {p : Option (Write (Address t l) Word)}
    {q : DcacheRequest t l} (h : Coherent (Address.layout t l) tags cm mem spec p p)
    (hp : p = none ∨ p = cacheWrite q)
    (hpasses : q.cached = false → PassesBy (tags q.addr.line) q) :
    Coherent (Address.layout t l) tags cm mem (specNext spec (some q)) (inFlight q)
      (cacheWrite q) := by
  cases hwe : q.we with
  | false =>
    have hnone : cacheWrite q = none := by simp [cacheWrite, hwe]
    have hspec : specNext spec (some q) = spec := by simp [specNext, hwe]
    rw [hnone] at hp ⊢
    rw [hspec]
    have hflight : inFlight q = none := by simp [inFlight, hwe]
    rw [hflight]
    exact h.widen (by simpa using hp) (by simpa using hp)
  | true =>
    have hspec : specNext spec (some q) =
        Function.update spec q.write.addr (q.write.upd (spec q.write.addr)) := by
      simp [specNext, hwe, DcacheRequest.write]
    have hflight : inFlight q = some q.write := by simp [inFlight, hwe]
    rw [hspec, hflight]
    cases hcached : q.cached with
    | true =>
      rw [cacheWrite_of_cached hcached, hflight] at hp ⊢
      exact (h.widen hp hp).accept
    | false =>
      rw [cacheWrite_of_uncached hcached] at hp ⊢
      have hp : p = none := by simpa using hp
      rw [hp] at h
      refine h.acceptMemory fun hholds => ?_
      rw [(hpasses hcached hholds).1] at hwe
      cases hwe

/-- The state after a clock that accepts what is offered, if anything is. -/
theorem Sound.accepts (hk : Kept i o) (hstall : stall i o.cache = false)
    (hstate : (next i o.cache).r.state = .idle)
    (hreq : (next i o.cache).r.req = (i.strobe && i.enable))
    (hrequest : (i.strobe && i.enable) = true → (next i o.cache).r.request = i.request)
    (hcoherent : Coherent (Address.layout t l) (next i o.cache).tmem o.cache.cmem
      (next i o.cache).mem o.spec (heldWrite o) (heldWrite o))
    (hcmem : (next i o.cache).cmem = written o.cache.cmem (i.offers.bind cacheWrite))
    (hdoa : (i.strobe && i.enable) = true →
      (next i o.cache).cmemDoa = o.cache.cmem i.request.addr.slot)
    (hentry : (i.strobe && i.enable) = true →
      (next i o.cache).tmemDoa.valid = ((next i o.cache).tmem i.request.addr.line).valid ∧
      (next i o.cache).tmemDoa.tag = ((next i o.cache).tmem i.request.addr.line).tag ∧
      (i.request.cached = true →
        (next i o.cache).tmemDoa.dirty = ((next i o.cache).tmem i.request.addr.line).dirty ∨
          miss (next i o.cache) = false))
    (hpasses : (i.strobe && i.enable) = true → i.request.cached = false →
      PassesBy ((next i o.cache).tmem i.request.addr.line) i.request) :
    Sound (o.next i) := by
  cases hoffer : i.strobe && i.enable with
  | false =>
    have hoffers : i.offers = none := by simp [DcacheInput.offers, hoffer]
    have hheld : heldWrite o = none := by
      have := hk.heldWrite
      simpa [hoffers] using this
    have hspec : (o.next i).spec = o.spec := by
      show specNext o.spec (accepted i o.cache) = _
      simp [accepted, hoffers, specNext]
    refine .quiet hstate (hreq.trans hoffer) ?_
    have hheld' : heldWrite (o.next i) = none := by
      show (if stall i o.cache then i.offers else none).bind cacheWrite = none
      simp [hstall]
    rw [hoffers] at hcmem
    rw [Quiet, hheld', hspec]
    show Coherent _ (next i o.cache).tmem (next i o.cache).cmem (next i o.cache).mem _ _ _
    rw [hcmem]
    rw [hheld] at hcoherent
    exact hcoherent
  | true =>
    have hoffers : i.offers = some i.request := by simp [DcacheInput.offers, hoffer]
    have haccepted : accepted i o.cache = some i.request := by simp [accepted, hstall, hoffers]
    have hrequest := hrequest hoffer
    have hspec : (o.next i).spec = specNext o.spec (some i.request) := by
      show specNext o.spec (accepted i o.cache) = _
      rw [haccepted]
    have hp : heldWrite o = none ∨ heldWrite o = cacheWrite i.request := by
      simpa [hoffers] using hk.heldWrite
    have hrequest' : (o.next i).cache.r.request = i.request := hrequest
    obtain ⟨hvalid, htag, hdirty⟩ := hentry hoffer
    refine .looking hstate (hreq.trans hoffer) ?_
    constructor
    case pending =>
      constructor
      · show (accepted i o.cache).or o.last = _
        rw [haccepted, hrequest']
        rfl
      · rw [hspec, hrequest']
        exact applied_of_accept o.spec i.request
    case valid => rw [hrequest']; exact hvalid
    case tag => rw [hrequest']; exact htag
    case dirty => rw [hrequest']; exact hdirty
    case passesBy => rw [hrequest']; exact hpasses hoffer
    case data =>
      refine ⟨o.cache.cmem, ?_, ?_, ?_⟩
      · rw [hrequest']
        exact (hdoa hoffer).symm
      · rw [hrequest']
        rw [hoffers] at hcmem
        exact hcmem
      · rw [hrequest', hspec]
        exact Coherent.accepts hcoherent hp (hpasses hoffer)

/-- What is offered goes into the content memory, accepted or not. -/
theorem Coherent.prewritten {tags : BitVec l → Entry (BitVec t)}
    {cm : BitVec l × LineOffset → Word} {mem spec : Address t l → Word}
    {pm pc : Option (Write (Address t l) Word)}
    (h : Coherent (Address.layout t l) tags cm mem spec pm pc)
    (hpc : pc = none ∨ pc = i.offers.bind cacheWrite)
    (hvictim : ∀ q, i.offers = some q → q.we = true → q.cached = true →
      (tags q.addr.line).valid = true → (tags q.addr.line).dirty = true →
        (tags q.addr.line).tag = q.addr.tag) :
    Coherent (Address.layout t l) tags (written cm (i.offers.bind cacheWrite)) mem spec pm
      (i.offers.bind cacheWrite) := by
  have hwide := h.widen (.inr rfl) hpc
  cases hp : i.offers.bind cacheWrite with
  | none =>
    rw [hp] at hwide
    exact hwide
  | some w =>
    rw [hp] at hwide
    obtain ⟨q, hq, hw⟩ := Option.bind_eq_some_iff.mp hp
    obtain ⟨⟨hwe, hcached⟩, rfl⟩ : (q.we = true ∧ q.cached = true) ∧ q.write = w := by
      simpa [cacheWrite] using hw
    exact hwide.prewrite (hvictim q hq hwe hcached)

theorem tmemDoa_next (hstate : o.cache.r.state = .idle ∨ o.cache.r.state = .directmemory) :
    (next i o.cache).tmemDoa = o.cache.tmem i.request.addr.line := by
  show (tmemA i o.cache).read o.cache.tmem o.cache.tmemDoa = _
  rcases hstate with hstate | hstate <;> simp [Ram.Port.read, tmemA, hstate]

/-! ## The idle state -/

section Idle

variable (hstate : o.cache.r.state = .idle)

include hstate

theorem stall_idle : stall i o.cache = willBusy o.cache := by simp [stall, hstate]

theorem cmem_next_idle (hmiss : miss o.cache = false) :
    (next i o.cache).cmem = written o.cache.cmem (i.offers.bind cacheWrite) := by
  have hB : (cmemB i o.cache).upd = id := by simp [cmemB, hstate]
  rw [cmem_next_of_id hB]
  apply write_prewrite <;> simp [cmemA, hstate, hmiss]

theorem cmemDoa_next_idle (hmiss : miss o.cache = false) (hoffer : (i.strobe && i.enable) = true) :
    (next i o.cache).cmemDoa = o.cache.cmem i.request.addr.slot := by
  show (cmemA i o.cache).read o.cache.cmem o.cache.cmemDoa = _
  rw [Bool.and_comm] at hoffer
  simp [Ram.Port.read, cmemA, hstate, hmiss, hoffer]

theorem next_of_miss (hmiss : miss o.cache = true) :
    (next i o.cache).tmem = o.cache.tmem ∧ (next i o.cache).cmem = o.cache.cmem ∧
      (next i o.cache).cmemDoa = o.cache.cmemDoa := by
  refine ⟨?_, ?_, ?_⟩
  · rw [tmem_next, Ram.Port.write_of_off]
    simp [tmemB, hstate, hmiss]
  · have hB : (cmemB i o.cache).upd = id := by simp [cmemB, hstate]
    rw [cmem_next_of_id hB, Ram.Port.write_of_off]
    simp [cmemA, hstate, hmiss]
  · show (cmemA i o.cache).read o.cache.cmem o.cache.cmemDoa = _
    simp [Ram.Port.read, cmemA, hstate, hmiss]

theorem tmem_next_of_quiet (hreq : o.cache.r.req = false) :
    (next i o.cache).tmem = o.cache.tmem := by
  rw [tmem_next, Ram.Port.write_of_off]
  simp [tmemB, hstate, hreq]

theorem Quiet.step (h : Quiet o) (hk : Kept i o) (hflush : o.cache.r.inFlush = false)
    (hbus : o.cache.bus = []) (hreq : o.cache.r.req = false) : Sound (o.next i) := by
  have hmiss : miss o.cache = false := by simp [miss, hreq]
  have hmem := (bus_quiet (i := i) (by simp [OnBus, hstate]) hbus).2.2
  have htmem := tmem_next_of_quiet (i := i) hstate hreq
  have hcmem := cmem_next_idle (i := i) hstate hmiss
  cases idleStep (i := i) hstate with
  | accepts hbusy hr =>
    have hstall : stall i o.cache = false := (stall_idle hstate).trans hbusy
    have hdoa := tmemDoa_next (i := i) (.inl hstate)
    refine .accepts hk hstall ?_ ?_ ?_ ?_ hcmem (cmemDoa_next_idle hstate hmiss) ?_ ?_
    · rw [hr]
      exact hstate
    · rw [hr]
      rfl
    · intro hoffer
      rw [hr]
      simp [accept, hoffer]
    · rw [htmem, hmem]
      exact h
    · intro _
      rw [hdoa, htmem]
      exact ⟨rfl, rfl, fun _ => .inl rfl⟩
    · intro hoffer hcached
      rw [htmem]
      exact hk.passesBy (by simp [accepted, hstall, DcacheInput.offers, hoffer]) hcached
  | flushes hflushReq hkeeps hstate' hlines =>
    have hstall : stall i o.cache = true := by
      rw [stall_idle hstate]
      simp [willBusy, hflushReq]
    have hin : (o.next i).cache.r.inFlush = false := hkeeps.inFlush.trans hflush
    refine .flushing hstate' ⟨hkeeps.req.trans hreq, .inl ⟨hlines.1, hlines.2, hin⟩, ?_⟩
    rw [hin, if_neg Bool.false_ne_true, heldWrite_next_of_stall hstall, spec_next_of_stall hstall]
    show Coherent _ (next i o.cache).tmem (next i o.cache).cmem (next i o.cache).mem _ _ _
    rw [htmem, hmem, hcmem]
    have hwide := Coherent.widen h hk.heldWrite (.inr rfl)
    refine Coherent.prewritten hwide hk.heldWrite ?_
    intro q hq hwe hcached
    exact hk.prewrite q hq hwe hcached (.inr ⟨hstate, hflushReq⟩)
  | direct hmiss' => rw [hmiss] at hmiss'; cases hmiss'
  | evicts hmiss' => rw [hmiss] at hmiss'; cases hmiss'
  | fills hmiss' => rw [hmiss] at hmiss'; cases hmiss'

omit hstate in
theorem Looking.hit (hmiss : miss o.cache = false) (hreq : o.cache.r.req = true) :
    o.cache.r.request.cached = true ∧ o.cache.tmemDoa.valid = true ∧
      o.cache.tmemDoa.tag = o.cache.r.request.addr.tag := by
  simp only [miss, hreq, Bool.true_and, Bool.or_eq_false_iff, Bool.not_eq_false', Dcache.hit,
    Bool.and_eq_true, beq_iff_eq] at hmiss
  exact ⟨hmiss.2, hmiss.1⟩

/-- After a hit the cache holds the memory shown with nothing in flight. -/
theorem Looking.after_hit (h : Looking o) (hreq : o.cache.r.req = true)
    (hmiss : miss o.cache = false) :
    Coherent (Address.layout t l) (next i o.cache).tmem o.cache.cmem o.cache.mem o.spec none
      none := by
  obtain ⟨hcached, hvalid, htag⟩ := Looking.hit hmiss hreq
  obtain ⟨cm, -, hcmem, hcoherent⟩ := h.data
  rw [cacheWrite_of_cached hcached] at hcmem hcoherent
  have hen : (tmemB i o.cache).en = true := by simp [tmemB, hstate, hreq, hmiss]
  cases hwe : o.cache.r.request.we with
  | false =>
    have hflight : inFlight o.cache.r.request = none := by simp [inFlight, hwe]
    rw [hflight] at hcmem hcoherent
    have hid : (tmemB i o.cache).upd = id := by simp [tmemB, hstate, hwe]
    rw [tmem_next, Ram.Port.write_of_id hid, hcmem]
    exact hcoherent
  | true =>
    have hflight : inFlight o.cache.r.request = some o.cache.r.request.write := by
      simp [inFlight, hwe]
    rw [hflight] at hcmem hcoherent
    have hholds : Holds (Address.layout t l) (o.cache.tmem o.cache.r.request.addr.line)
        o.cache.r.request.addr := ⟨h.valid.symm.trans hvalid, h.tag.symm.trans htag⟩
    have htmem : (next i o.cache).tmem = Function.update o.cache.tmem o.cache.r.request.addr.line
        ⟨true, true, o.cache.r.request.addr.tag⟩ := by
      rw [tmem_next, Ram.Port.write_of_on hen]
      simp [tmemB, hstate, hwe]
    rw [htmem, hcmem]
    exact hcoherent.hit (h.pending.applied hwe) hholds

/-- The entry that is read for the next request, when a hit makes the line dirty in the same clock.
-/
theorem Looking.entry_next (h : Looking o) (hreq : o.cache.r.req = true)
    (hmiss : miss o.cache = false) (k : BitVec l) :
    ((next i o.cache).tmem k).valid = (o.cache.tmem k).valid ∧
      ((next i o.cache).tmem k).tag = (o.cache.tmem k).tag ∧
      (((next i o.cache).tmem k).dirty = (o.cache.tmem k).dirty ∨
        k = o.cache.r.request.addr.line ∧ o.cache.r.request.we = true ∧
          (o.cache.tmem k).dirty = false) := by
  obtain ⟨-, hvalid, htag⟩ := Looking.hit hmiss hreq
  have hen : (tmemB i o.cache).en = true := by simp [tmemB, hstate, hreq, hmiss]
  cases hwe : o.cache.r.request.we with
  | false =>
    have hid : (tmemB i o.cache).upd = id := by simp [tmemB, hstate, hwe]
    rw [tmem_next, Ram.Port.write_of_id hid]
    exact ⟨rfl, rfl, .inl rfl⟩
  | true =>
    have htmem : (next i o.cache).tmem = Function.update o.cache.tmem o.cache.r.request.addr.line
        ⟨true, true, o.cache.r.request.addr.tag⟩ := by
      rw [tmem_next, Ram.Port.write_of_on hen]
      simp [tmemB, hstate, hwe]
    rw [htmem]
    by_cases hk : k = o.cache.r.request.addr.line
    · rw [hk, Function.update_self]
      refine ⟨(h.valid.symm.trans hvalid).symm, (h.tag.symm.trans htag).symm, ?_⟩
      cases hdirty : (o.cache.tmem o.cache.r.request.addr.line).dirty with
      | true => exact .inl rfl
      | false => exact .inr ⟨rfl, rfl, rfl⟩
    · rw [Function.update_of_ne hk]
      exact ⟨rfl, rfl, .inl rfl⟩

theorem Looking.step_hit (h : Looking o) (hk : Kept i o) (hbus : o.cache.bus = [])
    (hreq : o.cache.r.req = true) (hbusy : willBusy o.cache = false)
    (hr : (next i o.cache).r =
      { accept i (defaults o.cache) with flushReq := i.flush || o.cache.r.flushReq }) :
    Sound (o.next i) := by
  have hmiss : miss o.cache = false := by
    simp only [willBusy, Bool.or_eq_false_iff] at hbusy
    exact hbusy.1
  have hmem := (bus_quiet (i := i) (by simp [OnBus, hstate]) hbus).2.2
  have hstall : stall i o.cache = false := (stall_idle hstate).trans hbusy
  have hdoa := tmemDoa_next (i := i) (.inl hstate)
  have hcmem := cmem_next_idle (i := i) hstate hmiss
  have haccepted : (i.strobe && i.enable) = true → accepted i o.cache = some i.request := by
    intro hoffer
    simp [accepted, hstall, DcacheInput.offers, hoffer]
  refine .accepts hk hstall ?_ ?_ ?_ ?_ hcmem (cmemDoa_next_idle hstate hmiss) ?_ ?_
  · rw [hr]
    exact hstate
  · rw [hr]
    rfl
  · intro hoffer
    rw [hr]
    simp [accept, hoffer]
  · rw [hmem]
    exact (h.after_hit hstate hreq hmiss).widen (.inl rfl) (.inl rfl)
  · intro hoffer
    obtain ⟨hvalid', htag', hdirty'⟩ := h.entry_next (i := i) hstate hreq hmiss i.request.addr.line
    rw [hdoa]
    refine ⟨hvalid'.symm, htag'.symm, fun hcached => ?_⟩
    rcases hdirty' with hdirty' | ⟨hline, hwe, hclean⟩
    · exact .inl hdirty'.symm
    · -- the entry is old by its dirty bit, but the request is for the same line
      right
      rw [hline] at hclean
      have htag := hk.dirtyBit hstate hreq hwe hclean _ (haccepted hoffer) hcached hline
      obtain ⟨-, hvalid, htag₀⟩ := Looking.hit hmiss hreq
      have hrequest : (next i o.cache).r.request = i.request := by
        rw [hr]
        simp [accept, hoffer]
      have hvalid₁ : (o.cache.tmem i.request.addr.line).valid = true := by
        rw [hline, ← h.valid, hvalid]
      have htag₁ : (o.cache.tmem i.request.addr.line).tag = i.request.addr.tag := by
        rw [hline, ← h.tag, htag₀, htag]
      simp [miss, Dcache.hit, hrequest, hdoa, hvalid₁, htag₁, hcached]
  · intro hoffer hcached
    obtain ⟨hvalid', htag', hdirty'⟩ := h.entry_next (i := i) hstate hreq hmiss i.request.addr.line
    rintro ⟨hvalid, htag⟩
    obtain ⟨hread, hclean, hno⟩ := hk.nocache i.request (haccepted hoffer) hcached
      (hvalid'.symm.trans hvalid) (htag'.symm.trans htag)
    rcases hdirty' with hdirty' | ⟨hline, hwe, -⟩
    · exact ⟨hread, hdirty'.trans hclean⟩
    · exact absurd ⟨hstate, hreq, hwe, hline⟩ hno

omit hstate in
/-- A request that is not cached has left the content memory as it was. -/
theorem Looking.coherent_uncached (h : Looking o) (hcached : o.cache.r.request.cached = false) :
    Coherent (Address.layout t l) o.cache.tmem o.cache.cmem o.cache.mem o.spec
      (inFlight o.cache.r.request) none := by
  obtain ⟨cm, -, hcm, hcoherent⟩ := h.data
  rw [cacheWrite_of_uncached hcached] at hcm hcoherent
  rw [hcm]
  exact hcoherent

/-- A request that has to go to the memory. -/
theorem Looking.step_direct (h : Looking o) (hbus : o.cache.bus = [])
    (hmiss : miss o.cache = true)
    (hwhy : o.cache.r.request.cached = false ∨
      o.cache.tmemDoa.valid = false ∧ o.cache.r.request.we = true)
    (hkeeps : Keeps o.cache (next i o.cache))
    (hstate' : (next i o.cache).r.state = .directmemory) : Sound (o.next i) := by
  have hmem := (bus_quiet (i := i) (by simp [OnBus, hstate]) hbus).2.2
  have hstall : stall i o.cache = true := by
    rw [stall_idle hstate]
    simp [willBusy, hmiss]
  obtain ⟨htmem, hcmem, -⟩ := next_of_miss (i := i) hstate hmiss
  have hrequest : (o.next i).cache.r.request = o.cache.r.request := hkeeps.request
  have hcoherent : Coherent (Address.layout t l) o.cache.tmem o.cache.cmem o.cache.mem o.spec
      (inFlight o.cache.r.request) none ∧
      PassesBy (o.cache.tmem o.cache.r.request.addr.line) o.cache.r.request := by
    rcases hwhy with hcached | ⟨hvalid, hwe⟩
    · exact ⟨h.coherent_uncached hcached, h.passesBy hcached⟩
    · -- the write is in the content memory, but no line is there
      have hvalid' := h.valid.symm.trans hvalid
      cases hcached : o.cache.r.request.cached with
      | false => exact ⟨h.coherent_uncached hcached, h.passesBy hcached⟩
      | true =>
        obtain ⟨cm, -, hcm, hcoherent⟩ := h.data
        have hsome : cacheWrite o.cache.r.request = some o.cache.r.request.write := by
          simp [cacheWrite, hwe, hcached]
        rw [hsome] at hcm hcoherent
        rw [hcm]
        exact ⟨hcoherent.discard hvalid' _,
          fun hholds => absurd hholds (WriteBack.not_holds_of_invalid hvalid')⟩
  refine .direct hstate' ⟨h.pending.next_of_stall hstall hkeeps.request, ?_, ?_⟩
  · rw [hrequest]
    show PassesBy ((next i o.cache).tmem _) _
    rw [htmem]
    exact hcoherent.2
  · rw [hrequest, spec_next_of_stall hstall]
    show Coherent _ (next i o.cache).tmem (next i o.cache).cmem (next i o.cache).mem _ _ _
    rw [htmem, hcmem, hmem]
    exact hcoherent.1.widen (.inr rfl) (.inl rfl)

omit hstate in
/-- The entry the idle state looks at, when it is a miss. -/
theorem Looking.entry (h : Looking o) (hmiss : miss o.cache = true)
    (hcached : o.cache.r.request.cached = true) :
    o.cache.tmem o.cache.r.request.addr.line = o.cache.tmemDoa := by
  have hdirty : o.cache.tmemDoa.dirty = (o.cache.tmem o.cache.r.request.addr.line).dirty := by
    rcases h.dirty hcached with hdirty | hno
    · exact hdirty
    · rw [hmiss] at hno
      cases hno
  have hvalid := h.valid
  have htag := h.tag
  cases hdoa : o.cache.tmemDoa
  cases hentry : o.cache.tmem o.cache.r.request.addr.line
  simp_all

/-- A dirty line is in the way.  A write is in its word, which is to be put back first. -/
theorem Looking.step_evicts (h : Looking o) (hflush : o.cache.r.inFlush = false)
    (hbus : o.cache.bus = []) (hmiss : miss o.cache = true)
    (hcached : o.cache.r.request.cached = true)
    (hvictim : o.cache.tmemDoa.valid = true ∧ o.cache.tmemDoa.dirty = true)
    (hkeeps : Keeps o.cache (next i o.cache))
    (hstate' : (next i o.cache).r.state =
      if o.cache.r.request.we then .recover else .preparewb)
    (hfill : StartsFill o.cache (next i o.cache))
    (htag : (next i o.cache).r.writebackTag = o.cache.tmemDoa.tag) : Sound (o.next i) := by
  have hmem := (bus_quiet (i := i) (by simp [OnBus, hstate]) hbus).2.2
  have hstall : stall i o.cache = true := by
    rw [stall_idle hstate]
    simp [willBusy, hmiss]
  obtain ⟨htmem, hcmem, hdoa⟩ := next_of_miss (i := i) hstate hmiss
  have hrequest : (o.next i).cache.r.request = o.cache.r.request := hkeeps.request
  have hpending := h.pending.next_of_stall hstall hkeeps.request
  have hentry : o.cache.tmem o.cache.r.request.addr.line =
      ⟨true, true, (next i o.cache).r.writebackTag⟩ := by
    rw [h.entry hmiss hcached, htag]
    cases hdoa : o.cache.tmemDoa
    simp_all
  obtain ⟨cm, hslot, hcm, hcoherent⟩ := h.data
  cases hwe : o.cache.r.request.we with
  | true =>
    rw [hwe, if_pos rfl] at hstate'
    have hsome : cacheWrite o.cache.r.request = some o.cache.r.request.write := by
      simp [cacheWrite, hwe, hcached]
    refine .recovering hstate' ⟨hpending, ?_, cm, ?_, ?_, ?_⟩
    · rw [hrequest]
      show (next i o.cache).tmem _ = _
      rw [htmem]
      exact hentry
    · rw [hrequest]
      show _ = (next i o.cache).cmemDoa
      rw [hdoa, hslot]
    · rw [hrequest]
      show (next i o.cache).cmem = _
      rw [hcmem, hcm, hsome]
    · rw [hrequest, spec_next_of_stall hstall]
      show Coherent _ (next i o.cache).tmem _ (next i o.cache).mem _ _ _
      rw [htmem, hmem]
      exact hcoherent
  | false =>
    rw [hwe, if_neg Bool.false_ne_true] at hstate'
    have hin : (o.next i).cache.r.inFlush = false := hkeeps.inFlush.trans hflush
    have hnone : cacheWrite o.cache.r.request = none := by simp [cacheWrite, hwe]
    have hline : (o.next i).cache.r.fillLineNumber = o.cache.r.request.addr.line := hfill.line
    refine .evicting hstate' ⟨fun _ => hpending, fun hin' => ?_, ?_⟩
    · rw [hin] at hin'
      cases hin'
    · rw [hin, if_neg Bool.false_ne_true, hrequest, hline, spec_next_of_stall hstall]
      show Coherent _ (Function.update (next i o.cache).tmem _
        ⟨true, true, (next i o.cache).r.writebackTag⟩) (next i o.cache).cmem
        (next i o.cache).mem _ _ _
      rw [htmem, ← hentry, Function.update_eq_self, hcmem, hmem, hcm, hnone]
      rw [hnone] at hcoherent
      exact hcoherent.widen (.inr rfl) (.inl rfl)

omit hstate in
theorem written_off (cm : BitVec l × LineOffset → Word) (q : DcacheRequest t l) {k : BitVec l}
    (hk : k ≠ q.addr.line) (f : LineOffset) :
    written cm (cacheWrite q) (k, f) = cm (k, f) := by
  unfold cacheWrite
  split_ifs
  · apply Function.update_of_ne
    intro heq
    exact hk (congrArg Prod.fst heq)
  · rfl

theorem Looking.step_fills (h : Looking o) (hbus : o.cache.bus = [])
    (hmiss : miss o.cache = true) (hcached : o.cache.r.request.cached = true)
    (hclean : ¬ (o.cache.tmemDoa.valid = true ∧ o.cache.tmemDoa.dirty = true))
    (hkeeps : Keeps o.cache (next i o.cache))
    (hstate' : (next i o.cache).r.state = .readline)
    (hfill : StartsFill o.cache (next i o.cache)) (hburst : FillBurst (next i o.cache) 0 0)
    (hackQQ : (next i o.cache).r.ackQQ = false) : Sound (o.next i) := by
  have hmem := (bus_quiet (i := i) (by simp [OnBus, hstate]) hbus).2.2
  have hstall : stall i o.cache = true := by
    rw [stall_idle hstate]
    simp [willBusy, hmiss]
  obtain ⟨htmem, hcmem, -⟩ := next_of_miss (i := i) hstate hmiss
  have hrequest : (o.next i).cache.r.request = o.cache.r.request := hkeeps.request
  have hline : (o.next i).cache.r.fillLineNumber = o.cache.r.request.addr.line := hfill.line
  obtain ⟨cm, -, hcm, hcoherent⟩ := h.data
  rw [cacheWrite_of_cached hcached] at hcoherent
  refine .filling 0 0 hstate' hburst ?_
  constructor
  case pending => exact h.pending.next_of_stall hstall hkeeps.request
  case off =>
    rw [hrequest, hline, spec_next_of_stall hstall]
    show CoherentOff _ (next i o.cache).tmem (next i o.cache).cmem (next i o.cache).mem _ _ _ _
    rw [htmem, hcmem, hmem, hcm]
    exact (hcoherent.off _).congr (fun _ _ => rfl) fun k f hk =>
      written_off cm o.cache.r.request hk f
  case current =>
    rw [hrequest, hline, spec_next_of_stall hstall]
    show WriteBack.Current _ (next i o.cache).mem _ _ _
    rw [hmem]
    apply hcoherent.current
    rw [h.entry hmiss hcached]
    exact hclean
  case filled =>
    intro j hj
    omega
  case ackQQ =>
    intro hack
    rw [show (o.next i).cache.r.ackQQ = false from hackQQ] at hack
    cases hack

theorem Looking.step (h : Looking o) (hk : Kept i o) (hflush : o.cache.r.inFlush = false)
    (hbus : o.cache.bus = []) (hreq : o.cache.r.req = true) : Sound (o.next i) := by
  cases idleStep (i := i) hstate with
  | accepts hbusy hr => exact h.step_hit hstate hk hbus hreq hbusy hr
  | flushes hflushReq =>
    have hno := hk.orderly.flush hstate hflushReq
    rw [hreq] at hno
    cases hno
  | direct hmiss hwhy hkeeps hstate' => exact h.step_direct hstate hbus hmiss hwhy hkeeps hstate'
  | evicts hmiss hcached hvictim hkeeps hstate' hfill htag =>
    exact h.step_evicts hstate hflush hbus hmiss hcached hvictim hkeeps hstate' hfill htag
  | fills hmiss hcached hclean _ hkeeps hstate' hfill hstart =>
    have hbus' := (bus_quiet (i := i) (by simp [OnBus, hstate]) hbus).2.1
    exact h.step_fills hstate hbus hmiss hcached hclean hkeeps hstate' hfill
      (.start hstart hbus') hstart.ackQQ

end Idle

/-! ## The directmemory state -/

section Direct

variable (hstate : o.cache.r.state = .directmemory)

include hstate

theorem next_of_direct : (next i o.cache).tmem = o.cache.tmem ∧
    (next i o.cache).cmem = written o.cache.cmem (i.offers.bind cacheWrite) := by
  constructor
  · rw [tmem_next, Ram.Port.write_of_off]
    simp [tmemB, hstate]
  · have hB : (cmemB i o.cache).upd = id := by simp [cmemB, hstate]
    rw [cmem_next_of_id hB]
    apply write_prewrite <;> simp [cmemA, hstate]

/-- The answer has come: the write is made in the memory. -/
theorem Direct.answered (h : Direct o)
    (hbus : o.cache.bus = if o.cache.r.fillRDone then [directRequest o.cache] else [])
    (hack : ack i o.cache = true) :
    Coherent (Address.layout t l) o.cache.tmem o.cache.cmem (next i o.cache).mem o.spec none
      (heldWrite o) := by
  obtain ⟨q, hq⟩ := Option.isSome_iff_exists.mp hack
  have hdirect := (direct_answer hstate hbus hq).1
  have hcoherent := h.coherent
  cases hwe : o.cache.r.request.we with
  | false =>
    have hmem : (next i o.cache).mem = o.cache.mem := by
      show memNext i o.cache = _
      simp [memNext, hq, hdirect, directRequest, hwe]
    have hflight : inFlight o.cache.r.request = none := by simp [inFlight, hwe]
    rw [hmem, ← hflight]
    exact hcoherent
  | true =>
    have hmem : (next i o.cache).mem = Function.update o.cache.mem o.cache.r.request.write.addr
        (o.cache.r.request.write.upd (o.cache.mem o.cache.r.request.write.addr)) := by
      show memNext i o.cache = _
      simp [memNext, hq, hdirect, directRequest, hwe, DcacheRequest.write]
    have hflight : inFlight o.cache.r.request = some o.cache.r.request.write := by
      simp [inFlight, hwe]
    rw [hflight] at hcoherent
    rw [hmem]
    exact hcoherent.memoryWritten (h.pending.applied hwe)

theorem Direct.step (h : Direct o) (hk : Kept i o)
    (hbus : o.cache.bus = if o.cache.r.fillRDone then [directRequest o.cache] else []) :
    Sound (o.next i) := by
  have hr := r_next_directmemory (i := i) hstate
  obtain ⟨htmem, hcmem⟩ := next_of_direct (i := i) hstate
  cases hack : ack i o.cache with
  | true =>
    rw [hack, if_pos rfl] at hr
    have hstall : stall i o.cache = false := by simp [stall, hstate, hack]
    have hdoa := tmemDoa_next (i := i) (.inr hstate)
    refine .accepts hk hstall ?_ ?_ ?_ ?_ hcmem ?_ ?_ ?_
    · rw [hr]
    · rw [hr]
      rfl
    · intro hoffer
      rw [hr]
      simp [accept, hoffer]
    · rw [htmem]
      exact (h.answered hstate hbus hack).widen (.inl rfl) (.inr rfl)
    · intro hoffer
      show (cmemA i o.cache).read o.cache.cmem o.cache.cmemDoa = _
      rw [Bool.and_comm] at hoffer
      simp [Ram.Port.read, cmemA, hstate, hoffer]
    · intro _
      rw [hdoa, htmem]
      exact ⟨rfl, rfl, fun _ => .inl rfl⟩
    · intro hoffer hcached
      rw [htmem]
      exact hk.passesBy (by simp [accepted, hstall, DcacheInput.offers, hoffer]) hcached
  | false =>
    rw [hack, if_neg Bool.false_ne_true] at hr
    have hstall : stall i o.cache = true := by simp [stall, hstate, hack]
    have hmem : (next i o.cache).mem = o.cache.mem := by
      show memNext i o.cache = _
      have hanswer : answer i o.cache = none := by simpa [ack] using hack
      simp [memNext, hanswer]
    have hrequest : (o.next i).cache.r.request = o.cache.r.request := by
      show (next i o.cache).r.request = _
      rw [hr]
      rfl
    refine .direct ?_ ⟨h.pending.next_of_stall hstall hrequest, ?_, ?_⟩
    · show (next i o.cache).r.state = _
      rw [hr]
      exact hstate
    · rw [hrequest]
      show PassesBy ((next i o.cache).tmem _) _
      rw [htmem]
      exact h.passesBy
    · rw [hrequest, spec_next_of_stall hstall, heldWrite_next_of_stall hstall]
      show Coherent _ (next i o.cache).tmem (next i o.cache).cmem (next i o.cache).mem _ _ _
      rw [htmem, hcmem, hmem]
      refine Coherent.prewritten h.coherent hk.heldWrite ?_
      intro q hq hwe hcached
      exact hk.prewrite q hq hwe hcached (.inl ⟨hstate, hack⟩)

end Direct

/-! ## A line goes out -/

theorem stall_busy (h : o.cache.r.state ≠ .idle) (h' : o.cache.r.state ≠ .directmemory) :
    stall i o.cache = true := by
  cases hs : o.cache.r.state <;> simp_all [stall]

theorem Recovering.step (h : Recovering o) (hstate : o.cache.r.state = .recover)
    (hmissed : Missed o.cache) (hbus : o.cache.bus = []) : Sound (o.next i) := by
  have hstall : stall i o.cache = true := stall_busy (by simp [hstate]) (by simp [hstate])
  have hmem := (bus_quiet (i := i) (by simp [OnBus, hstate]) hbus).2.2
  have htmem : (next i o.cache).tmem = o.cache.tmem :=
    tmem_next_busy (by simp [hstate]) (by simp [hstate]) (by simp [hstate])
  have hcase : caseNext i o.cache =
      { defaults o.cache with fillRDone := false, state := .preparewb } := by
    simp [caseNext, hstate]
  have hr := r_next_of hcase
  have hrequest : (o.next i).cache.r.request = o.cache.r.request := by
    show (next i o.cache).r.request = _
    rw [hr]
    rfl
  have hin : (o.next i).cache.r.inFlush = false := by
    show (next i o.cache).r.inFlush = _
    rw [hr]
    exact hmissed.inFlush
  obtain ⟨cm, hslot, hcm, hcoherent⟩ := h.data
  -- the word comes back from the output
  have hcmem : (next i o.cache).cmem = cm := by
    have hA : (cmemA i o.cache).upd = id := by simp [cmemA, hstate]
    have hB : (cmemB i o.cache).en = true := by simp [cmemB, hstate]
    rw [cmem_next_of_id' hA, Ram.Port.write_of_on hB, hcm]
    simp only [cmemB, hstate, written, DcacheRequest.write]
    rw [← hslot, Function.update_idem, Function.update_eq_self]
  refine .evicting ?_ ⟨fun _ => h.pending.next_of_stall hstall hrequest, fun hin' => ?_, ?_⟩
  · show (next i o.cache).r.state = _
    rw [hr]
  · rw [hin] at hin'
    cases hin'
  · have hline : (o.next i).cache.r.fillLineNumber = o.cache.r.request.addr.line := by
      show (next i o.cache).r.fillLineNumber = _
      rw [hr]
      exact hmissed.line
    have htag : (o.next i).cache.r.writebackTag = o.cache.r.writebackTag := by
      show (next i o.cache).r.writebackTag = _
      rw [hr]
      rfl
    rw [hin, if_neg Bool.false_ne_true, hrequest, hline, htag, spec_next_of_stall hstall]
    show Coherent _ (Function.update (next i o.cache).tmem _ _) (next i o.cache).cmem
      (next i o.cache).mem _ _ _
    rw [htmem, ← h.victim, Function.update_eq_self, hcmem, hmem]
    rw [cacheWrite_of_cached hmissed.cached] at hcoherent
    exact hcoherent

/-- The registers that name the line that goes out. -/
structure SameVictim (s s' : Dcache t l) : Prop extends Keeps s s' where
  line : s'.r.fillLineNumber = s.r.fillLineNumber
  flushLine : s'.r.flushLineNumber = s.r.flushLineNumber
  tag : s'.r.writebackTag = s.r.writebackTag

theorem Evicting.keep (h : Evicting o) (hk : Kept i o) (hstall : stall i o.cache = true)
    (hsame : SameVictim o.cache (next i o.cache)) (htmem : (next i o.cache).tmem = o.cache.tmem)
    (hcmem : (next i o.cache).cmem = o.cache.cmem)
    (hcoherent : ∀ p, Coherent (Address.layout t l)
        (Function.update o.cache.tmem o.cache.r.fillLineNumber
          ⟨true, true, o.cache.r.writebackTag⟩) o.cache.cmem o.cache.mem o.spec p p →
      Coherent (Address.layout t l)
        (Function.update o.cache.tmem o.cache.r.fillLineNumber
          ⟨true, true, o.cache.r.writebackTag⟩) o.cache.cmem (next i o.cache).mem o.spec p p) :
    Evicting (o.next i) := by
  have hin : (o.next i).cache.r.inFlush = o.cache.r.inFlush := hsame.inFlush
  have hline : (o.next i).cache.r.fillLineNumber = o.cache.r.fillLineNumber := hsame.line
  have htag : (o.next i).cache.r.writebackTag = o.cache.r.writebackTag := hsame.tag
  have hrequest : (o.next i).cache.r.request = o.cache.r.request := hsame.request
  constructor
  case missed =>
    intro hno
    exact (h.missed (hin.symm.trans hno)).next_of_stall hstall hsame.request
  case swept =>
    intro hyes
    obtain ⟨⟨hnext, hclear⟩, hreq⟩ := h.swept (hin.symm.trans hyes)
    refine ⟨?_, hsame.req.trans hreq⟩
    show (next i o.cache).r.flushLineNumber = (next i o.cache).r.fillLineNumber + 1 ∧
      ∀ k : BitVec l, k.toNat ≤ (next i o.cache).r.fillLineNumber.toNat →
        ((next i o.cache).tmem k).valid = false
    rw [hsame.flushLine, hsame.line, htmem]
    exact ⟨hnext, hclear⟩
  case coherent =>
    have hold := hcoherent _ h.coherent
    rw [hin, hline, htag, hrequest, spec_next_of_stall hstall]
    show Coherent _ (Function.update (next i o.cache).tmem _ _) (next i o.cache).cmem _ _ _ _
    rw [htmem, hcmem]
    cases hflush : o.cache.r.inFlush with
    | false =>
      rw [hflush] at hold
      exact hold
    | true =>
      rw [hflush] at hold
      exact hold.widen (hk.heldWrite_next hstall) (hk.heldWrite_next hstall)

theorem Evicting.step (h : Evicting o) (hk : Kept i o) (hstate : o.cache.r.state = .preparewb)
    (hbus : o.cache.bus = [])
    (hoffsets : o.cache.r.fillOffsetR = 0 ∧ o.cache.r.fillOffsetW = 0)
    (hdone : o.cache.r.fillRDone = false) : Sound (o.next i) := by
  have hstall : stall i o.cache = true := stall_busy (by simp [hstate]) (by simp [hstate])
  have hmem := (bus_quiet (i := i) (by simp [OnBus, hstate]) hbus).2.2
  have htmem : (next i o.cache).tmem = o.cache.tmem :=
    tmem_next_busy (by simp [hstate]) (by simp [hstate]) (by simp [hstate])
  have hr := r_next_preparewb (i := i) hstate
  refine .writingBack 0 0 ?_ (.start hstate hbus hoffsets hdone) ⟨?_, ?_⟩
  · show (next i o.cache).r.state = _
    rw [hr]
  · refine h.keep hk hstall ⟨⟨⟨?_, ?_, ?_⟩, ?_⟩, ?_, ?_, ?_⟩ htmem (cmem_next_preparewb hstate) ?_
    all_goals first | (rw [hr]; rfl) | skip
    intro p hp
    rw [hmem]
    exact hp
  · intro j hj
    omega

section WritingBack

variable (hstate : o.cache.r.state = .writeback) {taken acked : Nat}
variable (hburst : WritebackBurst o.cache taken acked)

include hstate hburst

theorem mem_next_writeback {q : BusRequest t l} (hq : answer i o.cache = some q) :
    (next i o.cache).mem = Function.update o.cache.mem
      ⟨o.cache.r.writebackTag, o.cache.r.fillLineNumber, Slave.ring 0 acked⟩
      (o.cache.cmem (o.cache.r.fillLineNumber, Slave.ring 0 acked)) := by
  show memNext i o.cache = _
  simp only [memNext, hq, hburst.answered hstate hq, writebackRequest, merge_full]

theorem WritingBack.coherent_next (p : Option (Write (Address t l) Word))
    (hp : Coherent (Address.layout t l)
      (Function.update o.cache.tmem o.cache.r.fillLineNumber ⟨true, true, o.cache.r.writebackTag⟩)
      o.cache.cmem o.cache.mem o.spec p p) :
    Coherent (Address.layout t l)
      (Function.update o.cache.tmem o.cache.r.fillLineNumber ⟨true, true, o.cache.r.writebackTag⟩)
      o.cache.cmem (next i o.cache).mem o.spec p p := by
  cases hq : answer i o.cache with
  | none =>
    have hmem : (next i o.cache).mem = o.cache.mem := by
      show memNext i o.cache = _
      simp [memNext, hq]
    rw [hmem]
    exact hp
  | some q =>
    rw [mem_next_writeback hstate hburst hq]
    apply Coherent.victim hp <;> simp [Address.layout, Holds]

/-- The words that were answered are in the memory. -/
theorem WritingBack.written_next (h : WritingBack o acked) (j : Nat)
    (hj : j < acked + (if ack i o.cache then 1 else 0)) :
    (next i o.cache).mem ⟨o.cache.r.writebackTag, o.cache.r.fillLineNumber, Slave.ring 0 j⟩ =
      o.cache.cmem (o.cache.r.fillLineNumber, Slave.ring 0 j) := by
  cases hq : answer i o.cache with
  | none =>
    have hmem : (next i o.cache).mem = o.cache.mem := by
      show memNext i o.cache = _
      simp [memNext, hq]
    rw [hmem]
    exact h.written j (by simpa [ack, hq] using hj)
  | some q =>
    rw [mem_next_writeback hstate hburst hq]
    by_cases heq : (Slave.ring 0 j : LineOffset) = Slave.ring 0 acked
    · rw [heq, Function.update_self]
    · rw [Function.update_of_ne (fun hadr => heq (congrArg Address.offset hadr))]
      have hne : j ≠ acked := fun hj' => heq (by rw [hj'])
      have hj' : j < acked + 1 := by simpa [ack, hq] using hj
      exact h.written j (by omega)

/-- The line is in the memory. -/
theorem WritingBack.done (h : WritingBack o acked) (hk : Kept i o)
    (hends : writebackEnds i o.cache = true) (p : Option (Write (Address t l) Word))
    (hp : Coherent (Address.layout t l)
      (Function.update o.cache.tmem o.cache.r.fillLineNumber ⟨true, true, o.cache.r.writebackTag⟩)
      o.cache.cmem o.cache.mem o.spec p p) :
    CoherentOff (Address.layout t l) o.cache.tmem o.cache.cmem (next i o.cache).mem o.spec p p
        o.cache.r.fillLineNumber ∧
      WriteBack.Current (Address.layout t l) (next i o.cache).mem o.spec p
        o.cache.r.fillLineNumber := by
  have hacked := hburst.ends hstate hk.orderly hends
  obtain ⟨⟨q, hq⟩, -⟩ := hburst.drained hstate hends
  refine Coherent.writtenBack (WritingBack.coherent_next hstate hburst p hp) ?_
  intro a hline htag
  obtain ⟨j, hj, hring⟩ := Slave.exists_ring (0 : LineOffset) a.offset
  have ha : a = ⟨o.cache.r.writebackTag, o.cache.r.fillLineNumber, Slave.ring 0 j⟩ :=
    (Address.layout t l).ext _ _ htag hline hring.symm
  have hword := h.written_next (i := i) hstate hburst j (by simp [ack, hq]; omega)
  rw [ha]
  exact hword

end WritingBack

theorem WritingBack.step {taken acked : Nat} (h : WritingBack o acked) (hk : Kept i o)
    (hstate : o.cache.r.state = .writeback)
    (hwhy : Sweeping o.cache ∨ Missed o.cache ∧ o.cache.r.req = true)
    (hburst : WritebackBurst o.cache taken acked) : Sound (o.next i) := by
  have hstall : stall i o.cache = true := stall_busy (by simp [hstate]) (by simp [hstate])
  have htmem : (next i o.cache).tmem = o.cache.tmem :=
    tmem_next_busy (by simp [hstate]) (by simp [hstate]) (by simp [hstate])
  have hcmem := cmem_next_writeback (i := i) hstate
  cases hends : writebackEnds i o.cache with
  | false =>
    obtain ⟨taken', acked', -, hacked', hburst'⟩ := hburst.step hstate hends
    have hr := r_next_writeback hstate hends
    refine .writingBack taken' acked' ?_ hburst' ⟨?_, ?_⟩
    · show (next i o.cache).r.state = _
      rw [hr]
      exact hstate
    · refine h.keep hk hstall ⟨⟨⟨?_, ?_, ?_⟩, ?_⟩, ?_, ?_, ?_⟩ htmem hcmem
        (WritingBack.coherent_next hstate hburst)
      all_goals (rw [hr]; rfl)
    · intro j hj
      show (next i o.cache).mem ⟨(next i o.cache).r.writebackTag,
        (next i o.cache).r.fillLineNumber, _⟩ =
          (next i o.cache).cmem ((next i o.cache).r.fillLineNumber, _)
      rw [hcmem, hr]
      exact h.written_next hstate hburst j (hacked' ▸ hj)
  | true =>
    rcases hwhy with hsweep | ⟨hmissed, hreq⟩
    · -- in a flush the entry was cleared before
      obtain ⟨hstate', hsame, hin', hline', hflushLine'⟩ :=
        writeback_flushes hstate hsweep.inFlush hends
      obtain ⟨⟨hnext, hclear⟩, hreq⟩ := h.swept hsweep.inFlush
      have hcoherent := h.coherent
      rw [hsweep.inFlush, if_pos rfl] at hcoherent
      obtain ⟨hoff, hcurrent⟩ := h.done hstate hburst hk hends _ hcoherent
      have hall := hoff.invalid hcurrent (hclear _ (le_refl _))
      refine .flushing hstate' ⟨hsame.req.trans hreq, .inr ?_, ?_⟩
      · show (next i o.cache).r.flushLineNumber = (next i o.cache).r.fillLineNumber + 1 ∧
          ∀ k : BitVec l, k.toNat ≤ (next i o.cache).r.fillLineNumber.toNat →
            ((next i o.cache).tmem k).valid = false
        rw [hline', hflushLine', htmem]
        exact ⟨hnext, hclear⟩
      · rw [show (o.next i).cache.r.inFlush = false from hin', if_neg Bool.false_ne_true,
          spec_next_of_stall hstall]
        show Coherent _ (next i o.cache).tmem (next i o.cache).cmem _ _ _ _
        rw [htmem, hcmem]
        exact hall.widen (hk.heldWrite_next hstall) (hk.heldWrite_next hstall)
    · obtain ⟨hstate', hmissed', hkeeps, hburst', hackQQ⟩ :=
        writeback_fills hstate hmissed hreq hburst hends
      have hcoherent := h.coherent
      rw [hmissed.inFlush, if_neg Bool.false_ne_true] at hcoherent
      obtain ⟨hoff, hcurrent⟩ := h.done hstate hburst hk hends _ hcoherent
      have hrequest : (o.next i).cache.r.request = o.cache.r.request := hkeeps.request
      have hline : (o.next i).cache.r.fillLineNumber = o.cache.r.fillLineNumber := by
        show (next i o.cache).r.fillLineNumber = _
        rw [hmissed'.line, hkeeps.request, hmissed.line]
      refine .filling 0 0 hstate' hburst' ?_
      constructor
      case pending => exact (h.missed hmissed.inFlush).next_of_stall hstall hkeeps.request
      case off =>
        rw [hrequest, hline, spec_next_of_stall hstall]
        show CoherentOff _ (next i o.cache).tmem (next i o.cache).cmem _ _ _ _ _
        rw [htmem, hcmem]
        exact hoff
      case current =>
        rw [hrequest, hline, spec_next_of_stall hstall]
        exact hcurrent
      case filled =>
        intro j hj
        omega
      case ackQQ =>
        intro hack
        rw [show (o.next i).cache.r.ackQQ = false from hackQQ] at hack
        cases hack

/-! ## A line comes in -/

section Filling

variable (hstate : o.cache.r.state = .readline) {taken acked : Nat}
variable (hburst : FillBurst o.cache taken acked)

include hstate hburst

/-- Every answer of a fill is written to its place. -/
theorem next_of_answer {q : BusRequest t l} (hq : answer i o.cache = some q) :
    (next i o.cache).mem = o.cache.mem ∧
      (next i o.cache).cmem = Function.update o.cache.cmem
        (o.cache.r.fillLineNumber, Slave.ring o.cache.r.reqOffset acked)
        (o.cache.mem ⟨o.cache.r.fillTag, o.cache.r.fillLineNumber,
          Slave.ring o.cache.r.reqOffset acked⟩) := by
  obtain ⟨-, -, -, -, hanswer, -⟩ := hburst.step (i := i) hstate
  have hq' := hanswer q hq
  have hslot : mwbiSlot i o.cache =
      some (o.cache.r.fillLineNumber, Slave.ring o.cache.r.reqOffset acked) := by
    simp [mwbiSlot, hq, hq', fillRequest, BusTag.slot]
  constructor
  · show memNext i o.cache = _
    simp [memNext, hq, hq', fillRequest]
  · have hA : (cmemA i o.cache).upd = id := by simp [cmemA, hstate]
    have hB : (cmemB i o.cache).en = true := by simp [cmemB, hstate, hslot]
    rw [cmem_next_of_id' hA, Ram.Port.write_of_on hB]
    simp [cmemB, hstate, hslot, ack, hq, mwbiDat, hq', fillRequest]

omit hburst in
theorem next_of_no_answer (hack : answer i o.cache = none) :
    (next i o.cache).mem = o.cache.mem ∧ (next i o.cache).cmem = o.cache.cmem := by
  constructor
  · show memNext i o.cache = _
    simp [memNext, hack]
  · have hA : (cmemA i o.cache).upd = id := by simp [cmemA, hstate]
    have hB : (cmemB i o.cache).upd = id := by simp [cmemB, hstate, ack, hack]
    rw [cmem_next_of_id hB, Ram.Port.write_of_id hA]

theorem mem_next_readline : (next i o.cache).mem = o.cache.mem := by
  cases hq : answer i o.cache with
  | none => exact (next_of_no_answer hstate hq).1
  | some q => exact (next_of_answer hstate hburst hq).1

theorem cmem_next_readline_off (k : BitVec l) (f : LineOffset)
    (hk : k ≠ o.cache.r.fillLineNumber) : (next i o.cache).cmem (k, f) = o.cache.cmem (k, f) := by
  cases hq : answer i o.cache with
  | none => rw [(next_of_no_answer hstate hq).2]
  | some q =>
    rw [(next_of_answer hstate hburst hq).2]
    exact Function.update_of_ne (fun heq => hk (congrArg Prod.fst heq)) _ _

theorem Filling.filled_next (h : Filling o acked) (j : Nat)
    (hj : j < acked + (if ack i o.cache then 1 else 0)) :
    (next i o.cache).cmem (o.cache.r.fillLineNumber, Slave.ring o.cache.r.reqOffset j) =
      o.cache.mem ⟨o.cache.r.fillTag, o.cache.r.fillLineNumber,
        Slave.ring o.cache.r.reqOffset j⟩ := by
  cases hq : answer i o.cache with
  | none =>
    rw [(next_of_no_answer hstate hq).2]
    exact h.filled j (by simpa [ack, hq] using hj)
  | some q =>
    rw [(next_of_answer hstate hburst hq).2]
    by_cases heq : (Slave.ring o.cache.r.reqOffset j : LineOffset) =
        Slave.ring o.cache.r.reqOffset acked
    · rw [heq, Function.update_self]
    · rw [Function.update_of_ne (fun hslot => heq (congrArg Prod.snd hslot))]
      have hne : j ≠ acked := fun hj' => heq (by rw [hj'])
      have hj' : j < acked + 1 := by simpa [ack, hq] using hj
      exact h.filled j (by omega)

/-- All words are there, and the line gets its entry. -/
theorem Filling.done (h : Filling o acked) (hends : fillEnds i o.cache = true) :
    Coherent (Address.layout t l) (next i o.cache).tmem (next i o.cache).cmem
      (next i o.cache).mem o.spec (inFlight o.cache.r.request) (inFlight o.cache.r.request) := by
  obtain ⟨-, acked', hacked', -, -, hlast⟩ := hburst.step (i := i) hstate
  have h16 := (hlast hends).1
  rw [tmem_next_filled hstate hends, mem_next_readline hstate hburst]
  refine CoherentOff.fill ?_ h.current ?_
  · exact h.off.congr (fun _ _ => rfl) fun k f hk => cmem_next_readline_off hstate hburst k f hk
  · intro a hline htag
    obtain ⟨j, hj, hring⟩ := Slave.exists_ring o.cache.r.reqOffset a.offset
    have ha : a = ⟨o.cache.r.fillTag, o.cache.r.fillLineNumber,
        Slave.ring o.cache.r.reqOffset j⟩ :=
      (Address.layout t l).ext _ _ htag hline hring.symm
    have hword := h.filled_next (i := i) hstate hburst j (by omega)
    rw [ha]
    exact hword

end Filling

theorem Filling.step {taken acked : Nat} (h : Filling o acked)
    (hstate : o.cache.r.state = .readline) (hmissed : Missed o.cache)
    (hburst : FillBurst o.cache taken acked) : Sound (o.next i) := by
  have hstall : stall i o.cache = true := stall_busy (by simp [hstate]) (by simp [hstate])
  have hr := r_next_readline (i := i) hstate
  have hrequest : (o.next i).cache.r.request = o.cache.r.request := by
    show (next i o.cache).r.request = _
    rw [hr]
    rfl
  have hpending := h.pending.next_of_stall hstall hrequest
  cases hends : fillEnds i o.cache with
  | false =>
    obtain ⟨taken', acked', hacked', hburst', -⟩ := hburst.step (i := i) hstate
    have hmem := mem_next_readline (i := i) hstate hburst
    have hline : (o.next i).cache.r.fillLineNumber = o.cache.r.fillLineNumber := by
      show (next i o.cache).r.fillLineNumber = _
      rw [hr]
      rfl
    refine .filling taken' acked' ?_ hburst' ?_
    · show (next i o.cache).r.state = _
      rw [hr]
      simp [readlineNext, hends, hstate]
    constructor
    case pending => exact hpending
    case off =>
      rw [hrequest, hline, spec_next_of_stall hstall]
      show CoherentOff _ (next i o.cache).tmem (next i o.cache).cmem (next i o.cache).mem _ _ _ _
      rw [tmem_next_readline hstate hends, hmem]
      exact h.off.congr (fun _ _ => rfl) fun k f hk => cmem_next_readline_off hstate hburst k f hk
    case current =>
      rw [hrequest, hline, spec_next_of_stall hstall]
      show WriteBack.Current _ (next i o.cache).mem _ _ _
      rw [hmem]
      exact h.current
    case filled =>
      intro j hj
      show (next i o.cache).cmem ((next i o.cache).r.fillLineNumber,
        Slave.ring (next i o.cache).r.reqOffset j) = (next i o.cache).mem
          ⟨(next i o.cache).r.fillTag, (next i o.cache).r.fillLineNumber,
            Slave.ring (next i o.cache).r.reqOffset j⟩
      rw [hmem, hr]
      exact h.filled_next hstate hburst j (hacked' ▸ hj)
    case ackQQ =>
      intro hack
      have hackQ : o.cache.r.ackQ = true := by
        have hack : (next i o.cache).r.ackQQ = true := hack
        rw [hr] at hack
        exact hack
      -- an answer has come before, and the first one is for the word that is wanted
      have hfirst := h.filled 0 (by have := hburst.ackQ hackQ; omega)
      rw [hrequest]
      show (cmemA i o.cache).read o.cache.cmem o.cache.cmemDoa = (next i o.cache).mem _
      rw [hmem]
      rw [Slave.ring_zero, hmissed.line, hmissed.offset, hmissed.tag] at hfirst
      simpa [Ram.Port.read, cmemA, hstate, Address.slot] using hfirst
  | true =>
    have hdone := h.done hstate hburst hends
    have hentry : (o.next i).cache.tmem o.cache.r.request.addr.line =
        ⟨o.cache.r.request.we, true, o.cache.r.request.addr.tag⟩ := by
      show (next i o.cache).tmem _ = _
      rw [tmem_next_filled hstate hends, hmissed.line, hmissed.tag, Function.update_self]
    cases hwe : o.cache.r.request.we with
    | true =>
      refine .merging ?_ ⟨hpending, ?_, ?_⟩
      · show (next i o.cache).r.state = _
        rw [hr]
        simp [readlineNext, hends, hwe]
      · rw [hrequest, hentry, hwe]
      · rw [hrequest, spec_next_of_stall hstall]
        exact hdone
    | false =>
      refine .settling ?_ ⟨hpending, ?_, ?_⟩
      · show (next i o.cache).r.state = _
        rw [hr]
        simp [readlineNext, hends, hwe]
      · rw [hrequest, hentry]
        exact ⟨rfl, rfl⟩
      · have hnone : inFlight o.cache.r.request = none := by simp [inFlight, hwe]
        rw [hnone] at hdone
        rw [spec_next_of_stall hstall]
        exact hdone

theorem Merging.step (h : Merging o) (hstate : o.cache.r.state = .writeAfterFill)
    (hwe : o.cache.r.request.we = true) (hbus : o.cache.bus = []) : Sound (o.next i) := by
  have hstall : stall i o.cache = true := stall_busy (by simp [hstate]) (by simp [hstate])
  have hmem := (bus_quiet (i := i) (by simp [OnBus, hstate]) hbus).2.2
  have htmem : (next i o.cache).tmem = o.cache.tmem :=
    tmem_next_busy (by simp [hstate]) (by simp [hstate]) (by simp [hstate])
  have hcmem : (next i o.cache).cmem = written o.cache.cmem (some o.cache.r.request.write) := by
    have hA : (cmemA i o.cache).upd = id := by simp [cmemA, hstate]
    have hB : (cmemB i o.cache).en = true := by simp [cmemB, hstate]
    rw [cmem_next_of_id' hA, Ram.Port.write_of_on hB]
    simp [cmemB, hstate, written, DcacheRequest.write]
  have hcase : caseNext i o.cache = { defaults o.cache with state := .settle } := by
    simp [caseNext, hstate]
  have hr := r_next_of hcase
  have hrequest : (o.next i).cache.r.request = o.cache.r.request := by
    show (next i o.cache).r.request = _
    rw [hr]
    rfl
  have hholds : Holds (Address.layout t l) (o.cache.tmem o.cache.r.request.addr.line)
      o.cache.r.request.addr := by
    rw [h.entry]
    exact ⟨rfl, rfl⟩
  refine .settling ?_ ⟨h.pending.next_of_stall hstall hrequest, ?_, ?_⟩
  · show (next i o.cache).r.state = _
    rw [hr]
  · rw [hrequest]
    show Holds _ ((next i o.cache).tmem _) _
    rw [htmem]
    exact hholds
  · rw [spec_next_of_stall hstall]
    show Coherent _ (next i o.cache).tmem (next i o.cache).cmem (next i o.cache).mem _ _ _
    rw [htmem, hcmem, hmem]
    have hcoherent := h.coherent
    have hflight : inFlight o.cache.r.request = some o.cache.r.request.write := by
      simp [inFlight, hwe]
    rw [hflight] at hcoherent
    -- the entry is dirty already
    have hhit := hcoherent.hit (h.pending.applied hwe) hholds
    have hentry : Function.update o.cache.tmem o.cache.r.request.addr.line
        ⟨true, true, o.cache.r.request.addr.tag⟩ = o.cache.tmem := by
      rw [← h.entry, Function.update_eq_self]
    exact hentry ▸ hhit

theorem Settling.step (h : Settling o) (hstate : o.cache.r.state = .settle)
    (hmissed : Missed o.cache) (hbus : o.cache.bus = []) : Sound (o.next i) := by
  have hstall : stall i o.cache = true := stall_busy (by simp [hstate]) (by simp [hstate])
  have hmem := (bus_quiet (i := i) (by simp [OnBus, hstate]) hbus).2.2
  have htmem : (next i o.cache).tmem = o.cache.tmem :=
    tmem_next_busy (by simp [hstate]) (by simp [hstate]) (by simp [hstate])
  have hcmem : (next i o.cache).cmem = o.cache.cmem := by
    have hA : (cmemA i o.cache).upd = id := by simp [cmemA, hstate]
    have hB : (cmemB i o.cache).upd = id := by simp [cmemB, hstate]
    rw [cmem_next_of_id hB, Ram.Port.write_of_id hA]
  have hcase : caseNext i o.cache = { defaults o.cache with state := .idle } := by
    simp [caseNext, hstate]
  have hr := r_next_of hcase
  have hstate' : (o.next i).cache.r.state = .idle := by
    show (next i o.cache).r.state = _
    rw [hr]
  have hrequest : (o.next i).cache.r.request = o.cache.r.request := by
    show (next i o.cache).r.request = _
    rw [hr]
    rfl
  have hcoherent : Coherent (Address.layout t l) (o.next i).cache.tmem (o.next i).cache.cmem
      (o.next i).cache.mem (o.next i).spec none none := by
    rw [spec_next_of_stall hstall]
    show Coherent _ (next i o.cache).tmem (next i o.cache).cmem (next i o.cache).mem _ _ _
    rw [htmem, hcmem, hmem]
    exact h.coherent
  cases hreq : (o.next i).cache.r.req with
  | false => exact .quiet hstate' hreq (hcoherent.widen (.inl rfl) (.inl rfl))
  | true =>
    have hdoa : (o.next i).cache.tmemDoa =
        (o.next i).cache.tmem (o.next i).cache.r.request.addr.line := by
      rw [hrequest]
      show (tmemA i o.cache).read o.cache.tmem o.cache.tmemDoa = (next i o.cache).tmem _
      rw [htmem]
      simp [Ram.Port.read, tmemA, hstate]
    refine .looking hstate' hreq ⟨h.pending.next_of_stall hstall hrequest, ?_, ?_, ?_, ?_, ?_⟩
    · rw [hdoa]
    · rw [hdoa]
    · intro _
      rw [hdoa]
      exact .inl rfl
    · intro hno
      rw [hrequest, hmissed.cached] at hno
      cases hno
    · -- the write is in the content memory already
      have hword : o.cache.cmem o.cache.r.request.addr.slot = o.spec o.cache.r.request.addr :=
        h.coherent.word h.holds
      refine ⟨(next i o.cache).cmem, ?_, ?_, hcoherent.widen (.inl rfl) (.inl rfl)⟩
      · rw [hrequest, hcmem]
        show _ = (cmemA i o.cache).read o.cache.cmem o.cache.cmemDoa
        simp [Ram.Port.read, cmemA, hstate]
      · rw [hrequest, hcmem, cacheWrite_of_cached hmissed.cached]
        show (next i o.cache).cmem = _
        rw [hcmem]
        cases hwe : o.cache.r.request.we with
        | false => simp [inFlight, hwe, written]
        | true =>
          have happlied := h.pending.applied hwe
          rw [← hword] at happlied
          simp only [inFlight, hwe, if_true, written]
          show _ = Function.update o.cache.cmem o.cache.r.request.addr.slot
            (o.cache.r.request.write.upd (o.cache.cmem o.cache.r.request.addr.slot))
          rw [happlied, Function.update_eq_self]

/-! ## A flush -/

section Flush

variable (hstate : o.cache.r.state = .flush)

include hstate

theorem cmem_next_flush : (next i o.cache).cmem = o.cache.cmem := by
  have hA : (cmemA i o.cache).upd = id := by simp [cmemA, hstate]
  have hB : (cmemB i o.cache).upd = id := by simp [cmemB, hstate]
  rw [cmem_next_of_id hB, Ram.Port.write_of_id hA]

end Flush

/-- The entry that was cleared last was not dirty. -/
theorem Flushing.cleared (h : Flushing o) (hdirty : victimDirty o.cache = false) :
    Coherent (Address.layout t l) o.cache.tmem o.cache.cmem o.cache.mem o.spec (heldWrite o)
      (heldWrite o) := by
  have hcoherent := h.coherent
  cases hin : o.cache.r.inFlush with
  | false =>
    rw [hin, if_neg Bool.false_ne_true] at hcoherent
    exact hcoherent
  | true =>
    rw [hin, if_pos rfl] at hcoherent
    have hswept : Swept o.cache := by
      rcases h.sweep with ⟨-, -, hno⟩ | hswept
      · rw [hin] at hno
        cases hno
      · exact hswept
    have hclean : ¬ (o.cache.tmemDob.valid = true ∧ o.cache.tmemDob.dirty = true) := by
      rintro ⟨hvalid, hdirty'⟩
      simp [victimDirty, hin, hvalid, hdirty'] at hdirty
    have hdrop := hcoherent.invalidate (l := o.cache.r.fillLineNumber)
      (by rw [Function.update_self]; exact hclean) (hswept.2 _ (le_refl _))
    rw [Function.update_idem, Function.update_eq_self] at hdrop
    exact hdrop

theorem Flushing.step (hl : 0 < l) (h : Flushing o) (hk : Kept i o)
    (hstate : o.cache.r.state = .flush) (hbus : o.cache.bus = []) : Sound (o.next i) := by
  have hstall : stall i o.cache = true := stall_busy (by simp [hstate]) (by simp [hstate])
  have hmem := (bus_quiet (i := i) (by simp [OnBus, hstate]) hbus).2.2
  have hcmem := cmem_next_flush (i := i) hstate
  have hheld := hk.heldWrite_next hstall
  cases flushStep (i := i) hstate with
  | victim hdirty hstate' htag hlines _ _ hin hsame =>
    obtain ⟨⟨hin₀, hvalid⟩, hdirty'⟩ : (o.cache.r.inFlush = true ∧ o.cache.tmemDob.valid = true) ∧
        o.cache.tmemDob.dirty = true := by simpa [victimDirty] using hdirty
    have htmem := tmem_next_victim (i := i) hstate hdirty
    have hin' : (o.next i).cache.r.inFlush = true := hin
    refine .evicting hstate' ⟨fun hno => ?_, fun _ => ?_, ?_⟩
    · rw [hin'] at hno
      cases hno
    · refine ⟨?_, hsame.req.trans h.req⟩
      rcases h.sweep with ⟨-, -, hno⟩ | ⟨hnext, hclear⟩
      · rw [hin₀] at hno
        cases hno
      · show (next i o.cache).r.flushLineNumber = (next i o.cache).r.fillLineNumber + 1 ∧
          ∀ k : BitVec l, k.toNat ≤ (next i o.cache).r.fillLineNumber.toNat →
            ((next i o.cache).tmem k).valid = false
        rw [hlines.1, hlines.2, htmem]
        exact ⟨hnext, hclear⟩
    · have hentry : o.cache.tmemDob = ⟨true, true, (next i o.cache).r.writebackTag⟩ := by
        rw [htag]
        cases hdob : o.cache.tmemDob
        simp_all
      have hcoherent := h.coherent
      rw [hin₀, if_pos rfl, hentry] at hcoherent
      rw [hin', if_pos rfl, spec_next_of_stall hstall]
      show Coherent _ (Function.update (next i o.cache).tmem (next i o.cache).r.fillLineNumber _)
        (next i o.cache).cmem (next i o.cache).mem _ _ _
      rw [hlines.1, htmem, hcmem, hmem]
      exact hcoherent.widen hheld hheld
  | clears hdirty hmore hstate' hlines hin hsame =>
    have htmem := tmem_next_clears (i := i) hstate hdirty
    have hin' : (o.next i).cache.r.inFlush = true := hin
    refine .flushing hstate' ⟨hsame.req.trans h.req, .inr ⟨?_, ?_⟩, ?_⟩
    · show (next i o.cache).r.flushLineNumber = (next i o.cache).r.fillLineNumber + 1
      rw [hlines.1, hlines.2]
    · show ∀ k : BitVec l, k.toNat ≤ (next i o.cache).r.fillLineNumber.toNat →
        ((next i o.cache).tmem k).valid = false
      intro k hle
      rw [htmem]
      by_cases hline : k = o.cache.r.flushLineNumber
      · rw [hline, Function.update_self]
      · rw [Function.update_of_ne hline]
        rw [hlines.1] at hle
        have hne : k.toNat ≠ o.cache.r.flushLineNumber.toNat :=
          fun heq => hline (BitVec.eq_of_toNat_eq heq)
        rcases h.sweep with ⟨-, hzero, -⟩ | ⟨hnext, hclear⟩
        · rw [hzero] at hle hne
          simp at hle hne
          omega
        · apply hclear
          have hsucc : o.cache.r.flushLineNumber.toNat ≤ o.cache.r.fillLineNumber.toNat + 1 := by
            rw [hnext, BitVec.toNat_add]
            refine (Nat.mod_le _ _).trans ?_
            have : (1 : BitVec l).toNat ≤ 1 := by simpa using Nat.mod_le 1 (2 ^ l)
            omega
          omega
    · rw [hin', if_pos rfl, spec_next_of_stall hstall]
      show Coherent _ (Function.update (next i o.cache).tmem (next i o.cache).r.fillLineNumber
        ((tmemB i o.cache).read o.cache.tmem o.cache.tmemDob)) (next i o.cache).cmem
          (next i o.cache).mem _ _ _
      have hread : (tmemB i o.cache).read o.cache.tmem o.cache.tmemDob =
          o.cache.tmem o.cache.r.flushLineNumber := by
        simp [Ram.Port.read, tmemB, hstate]
      rw [hread, hlines.1, htmem, Function.update_idem, Function.update_eq_self, hcmem, hmem]
      exact (h.cleared hdirty).widen hheld hheld
  | ends hdirty hlast hstate' _ hsame =>
    have htmem := tmem_next_clears (i := i) hstate hdirty
    refine .quiet hstate' (hsame.req.trans h.req) ?_
    have hclear : ∀ k, (o.cache.tmem k).valid = false := by
      rcases h.sweep with ⟨hzero, -, -⟩ | ⟨-, hclear⟩
      · -- one line more is passed before the end
        rw [hzero] at hlast
        have hbit := congrArg (BitVec.getLsbD · 0) hlast
        simp [hl] at hbit
      · intro k
        apply hclear
        rw [hlast, BitVec.toNat_allOnes]
        have := k.isLt
        omega
    rw [Quiet, spec_next_of_stall hstall]
    show Coherent _ (next i o.cache).tmem (next i o.cache).cmem (next i o.cache).mem _ _ _
    rw [htmem, hcmem, hmem]
    refine Coherent.invalidate ((h.cleared hdirty).widen hheld hheld) ?_ rfl
    rw [hclear]
    simp

/-! ## Every clock -/

theorem Sound.step (hl : 0 < l) (h : Sound o) (hc : Control o.cache) (hk : Kept i o) :
    Sound (o.next i) := by
  cases hc with
  | idle hstate hflush hbus _ =>
    cases h with
    | quiet _ hreq h => exact h.step hstate hk hflush hbus hreq
    | looking _ hreq h => exact h.step hstate hk hflush hbus hreq
    | _ => simp_all
  | directmemory hstate _ _ hbus =>
    cases h with
    | direct _ h => exact h.step hstate hk hbus
    | _ => simp_all
  | recover hstate hmissed _ _ hbus _ =>
    cases h with
    | recovering _ h => exact h.step hstate hmissed hbus
    | _ => simp_all
  | preparewb hstate _ hbus hoffsets hdone =>
    cases h with
    | evicting _ h => exact h.step hk hstate hbus hoffsets hdone
    | _ => simp_all
  | writeback _ _ hstate hwhy _ =>
    cases h with
    | writingBack taken acked _ hburst h => exact h.step hk hstate hwhy hburst
    | _ => simp_all
  | readline _ _ hstate hmissed _ =>
    cases h with
    | filling taken acked _ hburst h => exact h.step hstate hmissed hburst
    | _ => simp_all
  | writeAfterFill hstate _ hwe hbus =>
    cases h with
    | merging _ h => exact h.step hstate hwe hbus
    | _ => simp_all
  | settle hstate hmissed hbus =>
    cases h with
    | settling _ h => exact h.step hstate hmissed hbus
    | _ => simp_all
  | flush hstate _ hbus =>
    cases h with
    | flushing _ h => exact h.step hl hk hstate hbus
    | _ => simp_all

end Dcache

end Xtc
