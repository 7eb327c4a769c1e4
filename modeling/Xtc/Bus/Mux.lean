import Xtc.Bus.Wishbone

/-!
# Mux — `xtc_wbmux2.vhd`, one master on two slaves

An address bit selects the slave.  A request to one slave is held back while the other one has
requests to answer, so that answers cannot overtake each other.  Which one has is known from
`reqcnt`, which counts the requests that a slave has taken and not answered.
-/

namespace Xtc

structure MuxInput where
  mWbi : Mosi
  s0Wbi : Miso
  s1Wbi : Miso
  -- unknown levels, without an answer
  xDat : Word
  xTag : Word

structure Mux (ρ : Type) where
  queued : Bool
  qdat : Word
  qtag : Word
  qerr : Bool
  -- the two instances of `reqcnt`
  cnt0 : ρ
  cnt1 : ρ

namespace Mux

variable {ρ : Type}

section Signals

-- `line` is `select_line`
variable (c : Reqcnt ρ) (line : Nat) (i : MuxInput) (s : Mux ρ)

def selectZero : Bool := !i.mWbi.adr.getLsbD line

def t0 : Bool := c.req s.cnt0

def t1 : Bool := c.req s.cnt1

def internalStall : Bool :=
  i.mWbi.stb && i.mWbi.cyc && (selectZero line i && t1 c s || !selectZero line i && t0 c s)

def req0 : Bool := selectZero line i && i.mWbi.stb && !internalStall c line i s

def req1 : Bool := !selectZero line i && i.mWbi.stb && !internalStall c line i s

def s0Wbo : Mosi :=
  { i.mWbi with
    stb := req0 c line i s
    cyc := if !i.mWbi.cyc then false else selectZero line i && i.mWbi.cyc || t0 c s }

def s1Wbo : Mosi :=
  { i.mWbi with
    stb := req1 c line i s
    cyc := if !i.mWbi.cyc then false else !selectZero line i && i.mWbi.cyc || t1 c s }

def mStall : Bool :=
  if !selectZero line i then i.s1Wbi.stall || internalStall c line i s
  else i.s0Wbi.stall || internalStall c line i s

/-- Both slaves answer; slave 1's answer is kept for the next clock. -/
def queue : Bool := i.s0Wbi.responds && i.s1Wbi.responds

def mWbo : Miso where
  ack := i.s0Wbi.responds || i.s1Wbi.responds || s.queued
  dat :=
    if i.s0Wbi.responds then i.s0Wbi.dat
    else if i.s1Wbi.responds then i.s1Wbi.dat
    else if s.queued then s.qdat else i.xDat
  tag :=
    if i.s0Wbi.responds then i.s0Wbi.tag
    else if i.s1Wbi.responds then i.s1Wbi.tag
    else if s.queued then s.qtag else i.xTag
  err :=
    if i.s0Wbi.responds then i.s0Wbi.err
    else if i.s1Wbi.responds then i.s1Wbi.err
    else s.queued && s.qerr
  stall := mStall c line i s

def next : Mux ρ :=
  let keeps := queue i && !s.queued
  { queued := keeps
    qdat := if keeps then i.s1Wbi.dat else s.qdat
    qtag := if keeps then i.s1Wbi.tag else s.qtag
    qerr := if keeps then i.s1Wbi.err else s.qerr
    cnt0 := c.next (req0 c line i s) i.mWbi.cyc i.s0Wbi.stall i.s0Wbi.responds s.cnt0
    cnt1 := c.next (req1 c line i s) i.mWbi.cyc i.s1Wbi.stall i.s1Wbi.responds s.cnt1 }

structure Reset : Prop where
  queued : s.queued = false
  cnt0 : s.cnt0 = c.reset
  cnt1 : s.cnt1 = c.reset

end Signals

/-! ## The two slaves as one family -/

section Slaves

variable (c : Reqcnt ρ) (line : Nat) (i : MuxInput) (s : Mux ρ) (j : Bool)

def target : Bool := !selectZero line i

def sWbo : Mosi := if j then s1Wbo c line i s else s0Wbo c line i s

def sWbi : Miso := if j then i.s1Wbi else i.s0Wbi

def cnt : ρ := if j then s.cnt1 else s.cnt0

def accepted : Bool :=
  i.mWbi.cyc && i.mWbi.stb && target line i == j && !internalStall c line i s && !(sWbi i j).stall

/-- What the master sees taken, with the slave it is for. -/
def takes : Option (Bool × WbRequest) :=
  (i.mWbi.taken (mStall c line i s)).map fun q => (target line i, q)

theorem taken_slave : (sWbo c line i s j).taken (sWbi i j).stall =
    if accepted c line i s j then some i.mWbi.request else none := by
  have hcond : ((sWbo c line i s j).cyc && (sWbo c line i s j).stb && !(sWbi i j).stall) =
      accepted c line i s j := by
    cases hcyc : i.mWbi.cyc <;> cases hz : selectZero line i <;> cases j <;>
      simp [accepted, sWbo, s0Wbo, s1Wbo, sWbi, req0, req1, target, hcyc, hz]
  unfold Mosi.taken
  rw [hcond]
  cases j <;> rfl

theorem takes_eq : takes c line i s =
    if accepted c line i s (target line i) then some (target line i, i.mWbi.request) else none := by
  have hcond : (i.mWbi.cyc && i.mWbi.stb && !mStall c line i s) =
      accepted c line i s (target line i) := by
    have hstall : ∀ a b c d : Bool, (a && b && (!c && !d)) = (a && b && !d && !c) := by decide
    cases hz : selectZero line i <;> simp [accepted, sWbi, target, mStall, hz] <;> apply hstall
  unfold takes Mosi.taken
  rw [hcond]
  cases accepted c line i s (target line i) <;> rfl

theorem accepted_target (h : accepted c line i s j = true) : target line i = j := by
  simp only [accepted, Bool.and_eq_true, beq_iff_eq] at h
  exact h.1.1.2

theorem accepted_alone {count : ρ → Nat} (hc : c.Counts count)
    (h : accepted c line i s j = true) : count (cnt s (!j)) = 0 := by
  have htarget := accepted_target c line i s j h
  simp only [accepted, Bool.and_eq_true, Bool.not_eq_true'] at h
  obtain ⟨⟨⟨⟨hcyc, hstb⟩, -⟩, hstall⟩, -⟩ := h
  have hz : selectZero line i = !j := by
    rw [← htarget, target, Bool.not_not]
  cases j <;> simpa [internalStall, hcyc, hstb, hz, t0, t1, cnt, hc.req] using hstall

theorem taken_eq : (sWbo c line i s j).taken (sWbi i j).stall =
    ((takes c line i s).filter fun q => q.1 == j).map Prod.snd := by
  rw [taken_slave, takes_eq]
  by_cases ht : target line i = j
  · rw [ht]
    cases accepted c line i s j <;> simp
  · have hno : accepted c line i s j = false := by
      by_contra hacc
      exact ht (accepted_target c line i s j (by simpa using hacc))
    rw [hno]
    cases accepted c line i s (target line i) <;> simp [ht]

theorem count_next {count : ρ → Nat} (hc : c.Counts count)
    (h : (sWbi i j).responds = true → 0 < count (cnt s j) + (accepted c line i s j).toNat) :
    count (cnt (next c line i s) j) =
      count (cnt s j) + (accepted c line i s j).toNat - (sWbi i j).responds.toNat := by
  have hstb : ∀ z b c d e : Bool, (z && b && !c && d && !e) = (d && b && z && !c && !e) := by decide
  cases j
  · have hacc : accepted c line i s false =
        (req0 c line i s && i.mWbi.cyc && !i.s0Wbi.stall) := by
      simp [accepted, req0, target, sWbi, hstb]
    rw [hacc] at h ⊢
    exact hc.next _ _ _ _ _ h
  · have hacc : accepted c line i s true =
        (req1 c line i s && i.mWbi.cyc && !i.s1Wbi.stall) := by
      simp [accepted, req1, target, sWbi, hstb]
    rw [hacc] at h ⊢
    exact hc.next _ _ _ _ _ h

theorem answer_eq (hqueued : s.queued = false) (hquiet : (sWbi i (!j)).responds = false) :
    (mWbo c line i s).answer = (sWbi i j).answer := by
  cases hj : (sWbi i j).responds with
  | false =>
    have hnone : (mWbo c line i s).responds = false := by
      cases j <;> simp_all [sWbi, mWbo, Miso.responds]
    rw [Miso.answer, hnone, Miso.answer, hj]
    rfl
  | true =>
    have hsome : (mWbo c line i s).responds = true := by
      cases j <;> simp_all [sWbi, mWbo, Miso.responds]
    rw [Miso.answer, hsome, Miso.answer, hj]
    cases j <;> simp_all [sWbi, mWbo]

end Slaves

/-! ## Order -/

abbrev run (c : Reqcnt ρ) (line : Nat) (s₀ : Mux ρ) (inputs : Nat → MuxInput) (n : Nat) : Mux ρ :=
  Run.states (next c line) s₀ inputs n

section Exchanges

variable (c : Reqcnt ρ) (line : Nat) (s₀ : Mux ρ) (inputs : Nat → MuxInput)

/-- The master's side of the bus; a request comes with the slave it is for. -/
def masterSide : Nat → Exchange (Bool × WbRequest) WbAnswer :=
  Exchange.run (fun n => takes c line (inputs n) (run c line s₀ inputs n))
    fun n => (mWbo c line (inputs n) (run c line s₀ inputs n)).answer

def slaveSide (j : Bool) : Nat → Exchange WbRequest WbAnswer :=
  Exchange.run
    (fun n => (sWbo c line (inputs n) (run c line s₀ inputs n) j).taken (sWbi (inputs n) j).stall)
    fun n => (sWbi (inputs n) j).answer

theorem masterSide_succ (n : Nat) : masterSide c line s₀ inputs (n + 1) =
    (masterSide c line s₀ inputs n).step (takes c line (inputs n) (run c line s₀ inputs n))
      (mWbo c line (inputs n) (run c line s₀ inputs n)).answer :=
  rfl

theorem slaveSide_succ (j : Bool) (n : Nat) : slaveSide c line s₀ inputs j (n + 1) =
    (slaveSide c line s₀ inputs j n).step
      ((sWbo c line (inputs n) (run c line s₀ inputs n) j).taken (sWbi (inputs n) j).stall)
      (sWbi (inputs n) j).answer :=
  rfl

/-- Nothing is queued, the counters count, and all requests on their way are for one slave. -/
structure Ordered (count : ρ → Nat) (n : Nat) : Prop where
  queued : (run c line s₀ inputs n).queued = false
  counted : ∀ j, count (cnt (run c line s₀ inputs n) j) =
    (slaveSide c line s₀ inputs j n).waiting.length
  alone : ∃ j, ∀ r ∈ (masterSide c line s₀ inputs n).waiting, r.1 = j
  part : ∀ j, Exchange.Part (fun q => q.1 == j) Prod.snd (masterSide c line s₀ inputs n)
    (slaveSide c line s₀ inputs j n)
  stray : (masterSide c line s₀ inputs n).stray = []

end Exchanges

section Run

variable {c : Reqcnt ρ} {count : ρ → Nat} {line : Nat} {s₀ : Mux ρ} {inputs : Nat → MuxInput}
  {n : Nat}

theorem Ordered.start (hc : c.Counts count) (h : Reset c s₀) :
    Ordered c line s₀ inputs count 0 where
  queued := h.queued
  counted j := by
    have hcnt : cnt s₀ j = c.reset := by cases j; exacts [h.cnt0, h.cnt1]
    exact (congrArg count hcnt).trans hc.reset
  alone := ⟨false, fun r hr => absurd hr List.not_mem_nil⟩
  part j := .empty _ _
  stray := rfl

/-- All requests on their way are for one slave, the new one included. -/
theorem Ordered.alone_offered (hc : c.Counts count) (h : Ordered c line s₀ inputs count n) :
    ∃ j, ∀ r ∈ (masterSide c line s₀ inputs n).waiting ++
      (takes c line (inputs n) (run c line s₀ inputs n)).toList, r.1 = j := by
  rw [takes_eq]
  cases hacc : accepted c line (inputs n) (run c line s₀ inputs n) (target line (inputs n)) with
  | false =>
    obtain ⟨j, hj⟩ := h.alone
    exact ⟨j, fun r hr => hj r (by simpa using hr)⟩
  | true =>
    set j := target line (inputs n)
    -- the other slave has nothing to answer
    have hother : ((masterSide c line s₀ inputs n).waiting.filter fun q => q.1 == !j) = [] := by
      have hlen := accepted_alone c line (inputs n) (run c line s₀ inputs n) j hc hacc
      rw [h.counted, List.length_eq_zero_iff, (h.part (!j)).waiting, List.map_eq_nil_iff] at hlen
      exact hlen
    refine ⟨j, fun r hr => ?_⟩
    obtain hr | hr := List.mem_append.mp hr
    · have hne := List.filter_eq_nil_iff.mp hother r hr
      cases hj : j <;> simp_all
    · rw [← Option.mem_toList.mp hr |> Option.some_inj.mp]

/-- A slave that answers has something on its way. -/
theorem Ordered.answers (h : Ordered c line s₀ inputs count n) {k : Bool}
    (hslave : (slaveSide c line s₀ inputs k (n + 1)).stray = [])
    (hk : (sWbi (inputs n) k).responds = true) :
    ∃ r ∈ (masterSide c line s₀ inputs n).waiting ++
      (takes c line (inputs n) (run c line s₀ inputs n)).toList, r.1 = k := by
  rw [slaveSide_succ] at hslave
  have hne := (Exchange.stray_step.mp hslave).2 (by rw [Miso.answer_isSome, hk])
  rw [taken_eq, (h.part k).offered] at hne
  obtain ⟨q, hq⟩ := List.exists_mem_of_ne_nil _ hne
  obtain ⟨r, hr, -⟩ := List.mem_map.mp hq
  obtain ⟨hmem, hrk⟩ := List.mem_filter.mp hr
  exact ⟨r, hmem, beq_iff_eq.mp hrk⟩

theorem Ordered.counted_next (hc : c.Counts count) (h : Ordered c line s₀ inputs count n) (k : Bool)
    (hslave : (slaveSide c line s₀ inputs k (n + 1)).stray = []) :
    count (cnt (run c line s₀ inputs (n + 1)) k) =
      (slaveSide c line s₀ inputs k (n + 1)).waiting.length := by
  have htaken : (accepted c line (inputs n) (run c line s₀ inputs n) k).toNat =
      ((sWbo c line (inputs n) (run c line s₀ inputs n) k).taken
        (sWbi (inputs n) k).stall).toList.length := by
    rw [taken_slave]
    cases accepted c line (inputs n) (run c line s₀ inputs n) k <;> rfl
  -- an answer has its request, so that the counter counts
  have hsome : (sWbi (inputs n) k).responds = true →
      0 < count (cnt (run c line s₀ inputs n) k) +
        (accepted c line (inputs n) (run c line s₀ inputs n) k).toNat := by
    intro hk
    rw [slaveSide_succ] at hslave
    have hne := (Exchange.stray_step.mp hslave).2 (by rw [Miso.answer_isSome, hk])
    rw [h.counted, htaken, ← List.length_append]
    exact List.length_pos_iff.mpr hne
  show count (cnt (Mux.next c line (inputs n) (run c line s₀ inputs n)) k) = _
  rw [count_next c line _ _ k hc hsome, h.counted, htaken, slaveSide_succ,
    Exchange.length_waiting_step, Miso.answer_isSome]

theorem Ordered.next (hc : c.Counts count) (h : Ordered c line s₀ inputs count n)
    (hslave : ∀ j, (slaveSide c line s₀ inputs j (n + 1)).stray = []) :
    Ordered c line s₀ inputs count (n + 1) := by
  obtain ⟨j, hj⟩ := h.alone_offered hc
  set offered := (masterSide c line s₀ inputs n).waiting ++
    (takes c line (inputs n) (run c line s₀ inputs n)).toList
  have honly : ∀ k, (sWbi (inputs n) k).responds = true → j = k ∧ offered ≠ [] := by
    intro k hk
    obtain ⟨r, hr, hrk⟩ := h.answers (hslave k) hk
    exact ⟨(hj r hr).symm.trans hrk, List.ne_nil_of_mem hr⟩
  have hquiet : (sWbi (inputs n) (!j)).responds = false := by
    by_contra hk
    have hcontra := (honly _ (by simpa using hk)).1
    cases j <;> cases hcontra
  have hanswer := answer_eq c line (inputs n) (run c line s₀ inputs n) j h.queued hquiet
  constructor
  case queued =>
    show (queue (inputs n) && !(run c line s₀ inputs n).queued) = false
    cases j <;> simp_all [queue, sWbi]
  case counted => exact fun k => h.counted_next hc k (hslave k)
  case alone =>
    refine ⟨j, fun r hr => ?_⟩
    rw [masterSide_succ] at hr
    exact hj r (Exchange.waiting_step_subset hr)
  case part =>
    intro k
    rw [masterSide_succ, slaveSide_succ, taken_eq]
    apply (h.part k).step
    change _ = if offered.head?.any (fun q => q.1 == k) then _ else none
    rw [hanswer]
    cases hk : (sWbi (inputs n) k).responds with
    | true =>
      obtain ⟨rfl, hne⟩ := honly k hk
      obtain ⟨r, rest, hcons⟩ := List.exists_cons_of_ne_nil hne
      have hr : r.1 = j := hj r (by rw [hcons]; exact List.mem_cons_self ..)
      simp [hcons, hr]
    | false =>
      have hnone : (sWbi (inputs n) k).answer = none := by simp [Miso.answer, hk]
      rw [hnone]
      cases hcons : offered with
      | nil => rfl
      | cons r rest =>
        have hr : r.1 = j := hj r (by rw [hcons]; exact List.mem_cons_self ..)
        by_cases hjk : j = k
        · rw [hjk, hnone]
          simp
        · simp [hr, hjk]
  case stray =>
    rw [masterSide_succ, Exchange.stray_step]
    refine ⟨h.stray, fun hsome => ?_⟩
    rw [hanswer, Miso.answer_isSome] at hsome
    exact (honly j hsome).2

theorem ordered (hc : c.Counts count) (hreset : Reset c s₀)
    (hslave : ∀ j n, (slaveSide c line s₀ inputs j n).stray = [])
    (n : Nat) : Ordered c line s₀ inputs count n := by
  induction n with
  | zero => exact .start hc hreset
  | succ n ih => exact ih.next hc fun j => hslave j (n + 1)

/-- The master sees one answer to each request, in order and from the slave it asked, and no clock
has two answers. -/
theorem answered_in_order (c : Reqcnt ρ) (count : ρ → Nat) (line : Nat) (s₀ : Mux ρ)
    (inputs : Nat → MuxInput) (hc : c.Counts count) (hreset : Reset c s₀)
    (hslave : ∀ j n, (slaveSide c line s₀ inputs j n).stray = []) (n : Nat) :
    (masterSide c line s₀ inputs n).stray = [] ∧
    (∀ j, Exchange.Part (fun q => q.1 == j) Prod.snd (masterSide c line s₀ inputs n)
      (slaveSide c line s₀ inputs j n)) ∧
    ¬((inputs n).s0Wbi.responds = true ∧ (inputs n).s1Wbi.responds = true) := by
  have h := ordered hc hreset hslave n
  refine ⟨h.stray, h.part, ?_⟩
  rintro ⟨h0, h1⟩
  obtain ⟨j, hj⟩ := h.alone_offered hc
  obtain ⟨r, hr, hfalse⟩ := h.answers (hslave false (n + 1)) h0
  obtain ⟨r', hr', htrue⟩ := h.answers (hslave true (n + 1)) h1
  have hsame : r.1 = r'.1 := (hj r hr).trans (hj r' hr').symm
  rw [hfalse, htrue] at hsame
  cases hsame

/-- A read of slave 0, and behind it a read of slave 1, which answers with an error. -/
def twoReads : Nat → MuxInput
  | 0 => ⟨.reading 0x100, .idle, .idle, 0, 0⟩
  | 1 => ⟨.reading 0x80000000, .answering 7, .idle, 0, 0⟩
  | 2 => ⟨.reading 0x80000000, .idle, .idle, 0, 0⟩
  | 3 => ⟨.holding, .idle, { Miso.idle with err := true }, 0, 0⟩
  | _ => ⟨.idle, .idle, .idle, 0, 0⟩

def atRest : Mux Nat := ⟨false, 0, 0, false, 0, 0⟩

theorem twoReads_stray (j : Bool) (n : Nat) :
    (slaveSide .counter 31 atRest twoReads j (n + 4)).stray = [] := by
  induction n with
  | zero => cases j <;> rfl
  | succ n ih =>
    rw [Nat.succ_add, slaveSide_succ, Exchange.stray_step]
    exact ⟨ih, fun h => by cases j <;> cases h⟩

theorem answered_in_order_twoReads :
    (slaveSide .counter 31 atRest twoReads true 4).served =
        [(Mosi.request (.reading 0x80000000), ⟨0, 0, true⟩)] ∧
      (masterSide .counter 31 atRest twoReads 4).served.map Prod.snd =
        [⟨7, 0, false⟩, ⟨0, 0, true⟩] := by
  have hslave : ∀ j n, (slaveSide .counter 31 atRest twoReads j n).stray = [] := by
    intro j n
    match n with
    | 0 | 1 | 2 | 3 => cases j <;> rfl
    | n + 4 => exact twoReads_stray j n
  have hpart := (answered_in_order .counter id 31 atRest twoReads Reqcnt.counter_counts
    ⟨rfl, rfl, rfl⟩ hslave 4).2.1 true
  constructor
  · rw [hpart.served]
    rfl
  · rfl

end Run

end Mux

end Xtc
