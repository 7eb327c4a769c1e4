import Xtc.Cache.DcacheControl

/-!
# DcacheThrough — write-through requests in the data cache

A write goes through to the bus from the directmemory state only, and a cached write gets there if
the tag memory has no entry at its place.  With an entry there it is made in the cache, and the line
is dirty.
-/

namespace Xtc

namespace Dcache

open WriteBack (Entry)

variable {t l : Nat} {i : DcacheInput t l}

structure Forwarded (t l : Nat) where
  cache : Dcache t l
  -- the request accepted last
  last : Option (DcacheRequest t l)
  -- the bus has taken its write since
  sent : Bool

/-- The bus takes the write of the request accepted last. -/
def carries (i : DcacheInput t l) (o : Forwarded t l) : Bool :=
  match o.last, busRequest i o.cache with
  | some q, some b => b.adr == q.addr && b.store == some (q.wmask, q.data)
  | _, _ => false

def Forwarded.next (i : DcacheInput t l) (o : Forwarded t l) : Forwarded t l where
  cache := Dcache.next i o.cache
  last := (accepted i o.cache).or o.last
  sent := (accepted i o.cache).isNone && (o.sent || carries i o)

def Forwarded.start (s : Dcache t l) : Forwarded t l := ⟨s, none, false⟩

abbrev forwarded (s₀ : Dcache t l) (inputs : Nat → DcacheInput t l) (n : Nat) : Forwarded t l :=
  Run.states Forwarded.next (.start s₀) inputs n

def Clean (e : Entry (BitVec t)) : Prop := ¬ (e.valid = true ∧ e.dirty = true)

/-- No entry is valid and dirty, and an acknowledged write has been taken by the bus. -/
structure WrittenThrough (i : DcacheInput t l) (o : Forwarded t l) : Prop where
  clean : ∀ k, Clean (o.cache.tmem k)
  sent : valid i o.cache = true →
    ∃ q, o.last = some q ∧ (q.we = true → (o.sent || carries i o) = true)

/-- The clocks in which the policy is kept: what is accepted is write-through or not cached, and
a cached write that is looked up finds no entry. -/
@[mk_iff] structure Through (i : DcacheInput t l) (o : Forwarded t l) : Prop where
  policy : ∀ q ∈ accepted i o.cache, q.accesstype = .wt ∨ q.accesstype = .nocache
  absent : o.cache.r.state = .idle → o.cache.r.req = true → o.cache.r.request.we = true →
    o.cache.r.request.cached = true → o.cache.tmemDoa.valid = false

/-- The states that are reached: no line goes out and no write brings one in. -/
structure Forwarding (o : Forwarded t l) : Prop where
  control : Control o.cache
  tags : ∀ k, Clean (o.cache.tmem k)
  doa : o.cache.r.req = true → Clean o.cache.tmemDoa
  dob : o.cache.r.inFlush = true → Clean o.cache.tmemDob
  state : o.cache.r.state ∈ [.idle, .directmemory, .readline, .settle, .flush]
  reads : o.cache.r.state = .readline ∨ o.cache.r.state = .settle → o.cache.r.request.we = false
  last : o.cache.r.req = true → o.last = some o.cache.r.request
  policy : o.cache.r.req = true →
    o.cache.r.request.accesstype = .wt ∨ o.cache.r.request.accesstype = .nocache
  sent : o.cache.r.state = .directmemory → o.cache.r.fillRDone = true →
    o.cache.r.request.we = true → o.sent = true

variable {o : Forwarded t l}

theorem Reset.forwarding {s : Dcache t l} (h : Reset s) : Forwarding (.start s) := by
  constructor
  case control => exact h.control
  case tags =>
    rintro k ⟨hvalid, -⟩
    have hno := h.tmem k
    have hvalid : (s.tmem k).valid = true := hvalid
    rw [hno] at hvalid
    cases hvalid
  all_goals simp [Forwarded.start, h.req, h.inFlush, h.state]

/-! ## Every clock -/

theorem Forwarding.doa_next (h : Forwarding o) (hen : (tmemA i o.cache).en = true) :
    Clean (next i o.cache).tmemDoa := by
  show Clean ((tmemA i o.cache).read o.cache.tmem o.cache.tmemDoa)
  rw [Ram.Port.read, if_pos hen]
  exact h.tags _

/-- No write hits. -/
theorem Forwarding.tmem_next_idle (hk : Through i o) (hstate : o.cache.r.state = .idle) :
    (next i o.cache).tmem = o.cache.tmem := by
  rw [tmem_next]
  cases hwe : o.cache.r.request.we with
  | false =>
    apply Ram.Port.write_of_id
    simp [tmemB, hstate, hwe]
  | true =>
    apply Ram.Port.write_of_off
    by_contra hen
    obtain ⟨hreq, hmiss⟩ : o.cache.r.req = true ∧ miss o.cache = false := by
      simpa [tmemB, hstate] using hen
    simp only [miss, hreq, Bool.true_and, Bool.or_eq_false_iff] at hmiss
    obtain ⟨hhit, hcached⟩ : hit o.cache = true ∧ o.cache.r.request.cached = true := by
      simpa using hmiss
    have hno := hk.absent hstate hreq hwe hcached
    simp [hit, hno] at hhit

theorem last_next_of_stalled (hstall : stall i o.cache = true) : (o.next i).last = o.last := by
  show (accepted i o.cache).or o.last = _
  simp [accepted, hstall]

/-- A clock that accepts what is offered. -/
theorem Forwarding.accepts (h : Forwarding o) (hk : Through i o) (hstall : stall i o.cache = false)
    (hstate' : (next i o.cache).r.state = .idle) (hin' : (next i o.cache).r.inFlush = false)
    (hreq' : (next i o.cache).r.req = (i.strobe && i.enable))
    (hrequest' : (i.strobe && i.enable) = true → (next i o.cache).r.request = i.request)
    (htmem : (next i o.cache).tmem = o.cache.tmem) (hen : (tmemA i o.cache).en = true) :
    Forwarding (o.next i) := by
  have hidle : (o.next i).cache.r.state = .idle := hstate'
  have hoffered : (o.next i).cache.r.req = true → accepted i o.cache = some i.request ∧
      (next i o.cache).r.request = i.request := by
    intro hreq
    have hoffer := hreq'.symm.trans hreq
    exact ⟨by simp [accepted, hstall, DcacheInput.offers, hoffer], hrequest' hoffer⟩
  constructor
  case control => exact h.control.step
  case tags =>
    show ∀ k, Clean ((next i o.cache).tmem k)
    rw [htmem]
    exact h.tags
  case doa => exact fun _ => h.doa_next hen
  case dob =>
    intro hyes
    rw [show (o.next i).cache.r.inFlush = false from hin'] at hyes
    cases hyes
  case last =>
    intro hreq
    obtain ⟨hacc, hrequest⟩ := hoffered hreq
    show (accepted i o.cache).or o.last = some (next i o.cache).r.request
    rw [hacc, hrequest]
    rfl
  case policy =>
    intro hreq
    obtain ⟨hacc, hrequest⟩ := hoffered hreq
    show (next i o.cache).r.request.accesstype = _ ∨ (next i o.cache).r.request.accesstype = _
    rw [hrequest]
    exact hk.policy _ hacc
  all_goals simp [hidle]

/-- A clock that accepts nothing and keeps the request, or is done with it. -/
theorem Forwarding.keeps (h : Forwarding o) (hstall : stall i o.cache = true)
    (hreq : (next i o.cache).r.req = true → o.cache.r.req = true)
    (hrequest : (next i o.cache).r.request = o.cache.r.request)
    (htags : ∀ k, Clean ((next i o.cache).tmem k))
    (hdoa : (tmemA i o.cache).en = true ∨ (next i o.cache).tmemDoa = o.cache.tmemDoa)
    (hdob : (next i o.cache).r.inFlush = true → Clean (next i o.cache).tmemDob)
    (hstate : (next i o.cache).r.state ∈ [.idle, .directmemory, .readline, .settle, .flush])
    (hreads : (next i o.cache).r.state = .readline ∨ (next i o.cache).r.state = .settle →
      o.cache.r.request.we = false)
    (hsent : (next i o.cache).r.state = .directmemory → (next i o.cache).r.fillRDone = true →
      o.cache.r.request.we = true → (o.sent || carries i o) = true) :
    Forwarding (o.next i) := by
  constructor
  case control => exact h.control.step
  case tags => exact htags
  case doa =>
    intro hreq'
    rcases hdoa with hen | hsame
    · exact h.doa_next hen
    · show Clean (next i o.cache).tmemDoa
      rw [hsame]
      exact h.doa (hreq hreq')
  case dob => exact hdob
  case state => exact hstate
  case reads =>
    show _ → (next i o.cache).r.request.we = false
    rw [hrequest]
    exact hreads
  case last =>
    intro hreq'
    rw [last_next_of_stalled hstall, h.last (hreq hreq')]
    exact congrArg some hrequest.symm
  case policy =>
    intro hreq'
    show (next i o.cache).r.request.accesstype = _ ∨ (next i o.cache).r.request.accesstype = _
    rw [hrequest]
    exact h.policy (hreq hreq')
  case sent =>
    show _ → _ → (next i o.cache).r.request.we = true →
      ((accepted i o.cache).isNone && (o.sent || carries i o)) = true
    rw [hrequest]
    intro hstate' hdone hwe
    have hnone : accepted i o.cache = none := by simp [accepted, hstall]
    rw [hnone]
    simpa using hsent hstate' hdone hwe

theorem Forwarding.step_idle (h : Forwarding o) (hk : Through i o)
    (hstate : o.cache.r.state = .idle) (hflush : o.cache.r.inFlush = false) :
    Forwarding (o.next i) := by
  have htmem := Forwarding.tmem_next_idle hk hstate
  have htags : ∀ k, Clean ((next i o.cache).tmem k) := by
    rw [htmem]
    exact h.tags
  have hen : (tmemA i o.cache).en = true := by simp [tmemA, hstate]
  have hin : Keeps o.cache (next i o.cache) → (next i o.cache).r.inFlush = true →
      Clean (next i o.cache).tmemDob := by
    intro hkeeps hyes
    rw [hkeeps.inFlush, hflush] at hyes
    cases hyes
  cases idleStep (i := i) hstate with
  | accepts hbusy hr =>
    have hstall : stall i o.cache = false := by simp [stall, hstate, hbusy]
    refine h.accepts hk hstall ?_ ?_ ?_ ?_ htmem hen
    · rw [hr]
      exact hstate
    · rw [hr]
      exact hflush
    · rw [hr]
      rfl
    · intro hoffer
      rw [hr]
      simp [accept, hoffer]
  | flushes hreq hkeeps hstate' =>
    have hstall : stall i o.cache = true := by simp [stall, hstate, willBusy, hreq]
    refine h.keeps hstall ?_ hkeeps.request htags (.inl hen) (hin hkeeps) ?_ ?_ ?_
    · rw [hkeeps.req]
      exact id
    all_goals simp [hstate']
  | direct hmiss _ hkeeps hstate' hdone' =>
    have hstall : stall i o.cache = true := by simp [stall, hstate, willBusy, hmiss]
    refine h.keeps hstall ?_ hkeeps.request htags (.inl hen) (hin hkeeps) ?_ ?_ ?_
    · rw [hkeeps.req]
      exact id
    all_goals simp [hstate', hdone']
  | evicts hmiss _ hvictim => exact absurd hvictim (h.doa (miss_req hmiss))
  | fills hmiss hcached _ hallocates hkeeps hstate' =>
    have hstall : stall i o.cache = true := by simp [stall, hstate, willBusy, hmiss]
    refine h.keeps hstall ?_ hkeeps.request htags (.inl hen) (hin hkeeps) ?_ ?_ ?_
    · rw [hkeeps.req]
      exact id
    · simp [hstate']
    · intro _
      -- a write finds no entry, and then it does not allocate one
      by_contra hwe
      have hwe : o.cache.r.request.we = true := by simpa using hwe
      have hreq := miss_req hmiss
      have hwa := hallocates (hk.absent hstate hreq hwe hcached) hwe
      rcases h.policy hreq with hp | hp <;> rw [hwa] at hp <;> cases hp
    · simp [hstate']

theorem Forwarding.carries_direct (h : Forwarding o) (hstate : o.cache.r.state = .directmemory)
    (hreq : o.cache.r.req = true) (hwe : o.cache.r.request.we = true)
    (hdone : o.cache.r.fillRDone = false) (hstall : i.busStall = false) : carries i o = true := by
  have hrequest : busRequest i o.cache = some (directRequest o.cache) := by
    simp [busRequest, hstall, hdone, hstate, directRequest]
  simp [carries, h.last hreq, hrequest, directRequest, hwe]

theorem Forwarding.step_directmemory (h : Forwarding o) (hk : Through i o)
    (hstate : o.cache.r.state = .directmemory) (hflush : o.cache.r.inFlush = false)
    (hreq : o.cache.r.req = true) : Forwarding (o.next i) := by
  have htmem : (next i o.cache).tmem = o.cache.tmem :=
    tmem_next_busy (by simp [hstate]) (by simp [hstate]) (by simp [hstate])
  have hen : (tmemA i o.cache).en = true := by simp [tmemA, hstate]
  have hr := r_next_directmemory (i := i) hstate
  cases hack : ack i o.cache with
  | true =>
    rw [hack, if_pos rfl] at hr
    have hstall : stall i o.cache = false := by simp [stall, hstate, hack]
    refine h.accepts hk hstall ?_ ?_ ?_ ?_ htmem hen
    · rw [hr]
    · rw [hr]
      exact hflush
    · rw [hr]
      rfl
    · intro hoffer
      rw [hr]
      simp [accept, hoffer]
  | false =>
    rw [hack, if_neg Bool.false_ne_true] at hr
    have hstall : stall i o.cache = true := by simp [stall, hstate, hack]
    have hstate' : (next i o.cache).r.state = .directmemory := by
      rw [hr]
      exact hstate
    refine h.keeps hstall (fun _ => hreq) ?_ ?_ (.inl hen) ?_ ?_ ?_ ?_
    · rw [hr]
      rfl
    · rw [htmem]
      exact h.tags
    · rw [hr]
      intro hyes
      have hyes : o.cache.r.inFlush = true := hyes
      rw [hflush] at hyes
      cases hyes
    · simp [hstate']
    · simp [hstate']
    · intro _ hdone' hwe
      cases hdone : o.cache.r.fillRDone with
      | true => rw [h.sent hstate hdone hwe, Bool.true_or]
      | false =>
        have hstall : i.busStall = false := by
          rw [hr] at hdone'
          simpa [hdone] using hdone'
        rw [h.carries_direct hstate hreq hwe hdone hstall, Bool.or_true]

theorem Forwarding.step_readline (h : Forwarding o) (hstate : o.cache.r.state = .readline)
    (hmissed : Missed o.cache) : Forwarding (o.next i) := by
  have hstall : stall i o.cache = true := by simp [stall, hstate]
  have hr := r_next_readline (i := i) hstate
  have hread := h.reads (.inl hstate)
  have hin : (next i o.cache).r.inFlush = false := by
    rw [hr]
    exact hmissed.inFlush
  have hreq : (next i o.cache).r.req = true → o.cache.r.req = true := by
    rw [hr]
    intro hreq
    simp only [readlineNext, Bool.and_eq_true] at hreq
    exact hreq.1
  have hrequest : (next i o.cache).r.request = o.cache.r.request := by
    rw [hr]
    rfl
  cases hends : fillEnds i o.cache with
  | false =>
    have hstate' : (next i o.cache).r.state = .readline := by
      rw [hr]
      simp [readlineNext, hends, hstate]
    refine h.keeps hstall hreq hrequest ?_ (.inl (by simp [tmemA, hstate, hends])) (by simp [hin])
      ?_ (fun _ => hread) ?_
    · rw [tmem_next_readline hstate hends]
      exact h.tags
    all_goals simp [hstate']
  | true =>
    have hstate' : (next i o.cache).r.state = .settle := by
      rw [hr]
      simp [readlineNext, hends, hread]
    have hdoa : (next i o.cache).tmemDoa = o.cache.tmemDoa := by
      show (tmemA i o.cache).read o.cache.tmem o.cache.tmemDoa = _
      simp [Ram.Port.read, tmemA, hstate, hends]
    refine h.keeps hstall hreq hrequest ?_ (.inr hdoa) (by simp [hin]) ?_ (fun _ => hread) ?_
    · -- a read gives its line a clean entry
      intro k
      rw [tmem_next_filled hstate hends, hread]
      by_cases hk : k = o.cache.r.fillLineNumber
      · rw [hk, Function.update_self]
        simp [Clean]
      · rw [Function.update_of_ne hk]
        exact h.tags k
    all_goals simp [hstate']

theorem Forwarding.step_flush (h : Forwarding o) (hstate : o.cache.r.state = .flush) :
    Forwarding (o.next i) := by
  have hstall : stall i o.cache = true := by simp [stall, hstate]
  have hclean : victimDirty o.cache = false := by
    by_contra hdirty
    obtain ⟨hin, hvictim⟩ : o.cache.r.inFlush = true ∧ o.cache.tmemDob.valid = true ∧
        o.cache.tmemDob.dirty = true := by simpa [victimDirty] using hdirty
    exact h.dob hin hvictim
  have htags : ∀ k, Clean ((next i o.cache).tmem k) := by
    intro k
    have hB : (tmemB i o.cache).en = true := by simp [tmemB, hstate]
    rw [tmem_next, Ram.Port.write_of_on hB]
    by_cases hk : k = (tmemB i o.cache).addr
    · rw [hk, Function.update_self]
      simp [tmemB, hstate, hclean, Clean]
    · rw [Function.update_of_ne hk]
      exact h.tags k
  have hdoa : (next i o.cache).tmemDoa = o.cache.tmemDoa := by
    show (tmemA i o.cache).read o.cache.tmem o.cache.tmemDoa = _
    simp [Ram.Port.read, tmemA, hstate]
  have hdob : Clean (next i o.cache).tmemDob := by
    show Clean ((tmemB i o.cache).read o.cache.tmem o.cache.tmemDob)
    have hB : (tmemB i o.cache).en = true := by simp [tmemB, hstate]
    rw [Ram.Port.read, if_pos hB]
    exact h.tags _
  have hgo : SameRequest o.cache (next i o.cache) →
      ((next i o.cache).r.state = .flush ∨ (next i o.cache).r.state = .idle) →
      Forwarding (o.next i) := by
    intro hsame hstate'
    refine h.keeps hstall ?_ hsame.request htags (.inr hdoa) (fun _ => hdob) ?_ ?_ ?_
    · rw [hsame.req]
      exact id
    all_goals rcases hstate' with h' | h' <;> simp [h']
  cases flushStep (i := i) hstate with
  | victim hdirty =>
    rw [hclean] at hdirty
    cases hdirty
  | clears _ _ hstate' _ _ hsame => exact hgo hsame (.inl hstate')
  | ends _ _ hstate' _ hsame => exact hgo hsame (.inr hstate')

theorem Forwarding.step (h : Forwarding o) (hk : Through i o) : Forwarding (o.next i) := by
  have hout := h.state
  cases h.control with
  | idle hstate hflush => exact h.step_idle hk hstate hflush
  | directmemory hstate hflush hreq => exact h.step_directmemory hk hstate hflush hreq
  | readline _ _ hstate hmissed => exact h.step_readline hstate hmissed
  | flush hstate => exact h.step_flush hstate
  | settle hstate hmissed =>
    have hstall : stall i o.cache = true := by simp [stall, hstate]
    have hcase : caseNext i o.cache = { defaults o.cache with state := .idle } := by
      simp [caseNext, hstate]
    have hr := r_next_of hcase
    have htmem : (next i o.cache).tmem = o.cache.tmem :=
      tmem_next_busy (by simp [hstate]) (by simp [hstate]) (by simp [hstate])
    refine h.keeps hstall ?_ ?_ ?_ (.inl (by simp [tmemA, hstate])) ?_ ?_ ?_ ?_
    · rw [hr]
      exact id
    · rw [hr]
      rfl
    · rw [htmem]
      exact h.tags
    all_goals (rw [hr]; simp [defaults, hmissed.inFlush])
  -- the states in which a line goes out or a write brings one in
  | recover hstate => simp [hstate] at hout
  | preparewb hstate => simp [hstate] at hout
  | writeback _ _ hstate => simp [hstate] at hout
  | writeAfterFill hstate => simp [hstate] at hout

/-- What is acknowledged in a state that is reached. -/
theorem Forwarding.writtenThrough (h : Forwarding o)
    (habsent : o.cache.r.state = .idle → o.cache.r.req = true → o.cache.r.request.we = true →
      o.cache.r.request.cached = true → o.cache.tmemDoa.valid = false) : WrittenThrough i o := by
  refine ⟨h.tags, fun hvalid => ?_⟩
  cases h.control with
  | idle hstate =>
    obtain ⟨hreq, hmiss⟩ : o.cache.r.req = true ∧ miss o.cache = false := by
      simpa [valid, hstate] using hvalid
    refine ⟨_, h.last hreq, fun hwe => ?_⟩
    simp only [miss, hreq, Bool.true_and, Bool.or_eq_false_iff] at hmiss
    obtain ⟨hhit, hcached⟩ : hit o.cache = true ∧ o.cache.r.request.cached = true := by
      simpa using hmiss
    have hno := habsent hstate hreq hwe hcached
    simp [hit, hno] at hhit
  | directmemory hstate _ hreq hbus =>
    refine ⟨_, h.last hreq, fun hwe => ?_⟩
    cases hdone : o.cache.r.fillRDone with
    | true => rw [h.sent hstate hdone hwe, Bool.true_or]
    | false =>
      -- nothing was outstanding, so the answer is to what is taken in this clock
      have hstall : i.busStall = false := by
        by_contra hno
        have hno : i.busStall = true := by simpa using hno
        simp [valid, hstate, ack, answer, offered, busRequest, hno, hbus, hdone] at hvalid
      rw [h.carries_direct hstate hreq hwe hdone hstall, Bool.or_true]
  | readline _ _ hstate _ hburst =>
    obtain ⟨hack, hfirst⟩ : o.cache.r.ackQQ = true ∧ o.cache.r.finishedW = o.cache.r.reqOffset := by
      simpa [valid, hstate] using hvalid
    have hreq := (hburst.acknowledges hack hfirst).2.2
    refine ⟨_, h.last hreq, fun hwe => ?_⟩
    rw [h.reads (.inl hstate)] at hwe
    cases hwe
  | _ => simp_all [valid]

/-- In a run whose clocks keep the policy nothing in the cache is dirty, and what is acknowledged is
written through. -/
theorem written_through {s₀ : Dcache t l} (inputs : Nat → DcacheInput t l) (n : Nat)
    (hreset : Reset s₀) (hthrough : ∀ k ≤ n, Through (inputs k) (forwarded s₀ inputs k)) :
    WrittenThrough (inputs n) (forwarded s₀ inputs n) := by
  have hinv : Forwarding (forwarded s₀ inputs n) :=
    Run.invariant Forwarding Through hreset.forwarding (fun _ _ hk h => h.step hk) n
      fun k hk => hthrough k (by omega)
  exact hinv.writtenThrough (hthrough n (le_refl _)).absent

instance (i : DcacheInput t l) (o : Forwarded t l) : Decidable (Through i o) :=
  decidable_of_iff _ (through_iff ..).symm

def absentWrite (k : Nat) : DcacheInput 19 1 :=
  .offering ⟨⟨0, 1, 5⟩, true, 3, 7, 0, .wt⟩ (k ≠ 6)

theorem written_through_absent :
    valid (absentWrite 7) (forwarded (reset fun _ => 5) absentWrite 7).cache = true ∧
      WrittenThrough (absentWrite 7) (forwarded (reset fun _ => 5) absentWrite 7) :=
  ⟨by decide +kernel, written_through absentWrite 7 (reset_reset _) (by decide +kernel)⟩

def presentWrite (k : Nat) : DcacheInput 19 7 :=
  .offering
    (if k ≤ 130 then ⟨⟨0, 3, 5⟩, false, 15, 0, 0, .wt⟩ else ⟨⟨0, 3, 5⟩, true, 15, 7, 0, .wt⟩)
    (k ≠ 132)

/-- The write hits: it is acknowledged, the bus has not taken it, and its line is dirty. -/
theorem not_written_through :
    Reset (reset fun _ : Address 19 7 => 5) ∧
      (∀ k, (presentWrite k).request.accesstype = .wt) ∧
      ¬ WrittenThrough (presentWrite 151) (forwarded (reset fun _ => 5) presentWrite 151) ∧
      ¬ WrittenThrough (presentWrite 152) (forwarded (reset fun _ => 5) presentWrite 152) := by
  have hrun :
      valid (presentWrite 151) (forwarded (reset fun _ => 5) presentWrite 151).cache = true ∧
      (forwarded (reset fun _ => 5) presentWrite 151).last = some (presentWrite 151).request ∧
      ((forwarded (reset fun _ => 5) presentWrite 151).sent ||
        carries (presentWrite 151) (forwarded (reset fun _ => 5) presentWrite 151)) = false ∧
      ((forwarded (reset fun _ => 5) presentWrite 152).cache.tmem 3).valid = true ∧
      ((forwarded (reset fun _ => 5) presentWrite 152).cache.tmem 3).dirty = true := by
    decide +kernel
  obtain ⟨hvalid, hlast, hsent, hentry⟩ := hrun
  refine ⟨reset_reset _, ?_, ?_, fun h => h.clean 3 hentry⟩
  · intro k
    unfold presentWrite DcacheInput.offering
    split_ifs <;> rfl
  · intro h
    obtain ⟨q, hq, hwritten⟩ := h.sent hvalid
    rw [hlast] at hq
    cases hq
    rw [hsent] at hwritten
    exact absurd (hwritten rfl) Bool.false_ne_true

end Dcache

end Xtc
