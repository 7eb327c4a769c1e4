import Xtc.Sdram.Progress

/-!
# Refresh — a silent bus, and rows that are closed

A refresh that falls due in `idle` is forgotten: `idle` clears the flag in the clock that sets it.
Once the bus is silent the controller comes to rest there, and the chip is never refreshed again.
A row is closed too early only if a refresh falls due while it is opened.
-/

namespace Xtc

namespace Sdram

/-! ## The silent bus -/

namespace State

def toIdle : State → Nat
  | idle => 0
  | dr1 => 1
  | dr0 => 2
  | ra2 | wr2 => 3
  | ra1 => 4
  | ra0 => 5
  | rf0 => 6
  | rf1 => 5
  | rf2 => 4
  | rf3 => 3
  | rf4 => 2
  | rf5 => 1
  | _ => 0

/-- A row is opened, and stays so until a refresh is due. -/
def stays (x : State) : Bool := x ∈ [ra0, ra1, ra2]

/-- The clocks until the machine rests: with a refresh due, `left` clocks before the timer runs out.
-/
def toRest (x : State) (rf : Bool) (left : Nat) : Nat :=
  if rf then x.toIdle + 7 + (if x.toIdle < left ∧ left ≤ x.toIdle + 6 then 7 else 0)
  else if x.stays then left + 13
  else x.toIdle + (if left < x.toIdle then 7 else 0)

theorem toIdle_rest : ∀ p ∈ [(ra0, ra1), (ra1, ra2), (dr0, dr1), (dr1, idle), (rf0, rf1),
    (rf1, rf2), (rf2, rf3), (rf3, rf4), (rf4, rf5), (rf5, idle)],
    p.2.toIdle + 1 = p.1.toIdle ∧ p.1.toIdle ≤ 6 ∧ p.2.stays = p.1.stays := by
  decide

/-- The timer of a clock: the clocks left, and whether a refresh is due then. -/
def tick (left : Nat) : Nat := if left = 0 then RELOAD else left - 1

variable {x y : State} {rf : Bool} {left : Nat}

theorem toRest_edge (h : y.toIdle + 1 = x.toIdle) (hle : x.toIdle ≤ 6)
    (hstays : rf = true ∨ y.stays = x.stays) :
    toRest y (rf || decide (left = 0)) (tick left) < toRest x rf left := by
  have hreload : RELOAD = 1490 := rfl
  have hopen : x.stays = true → x.toIdle ≤ 5 := by
    intro _
    cases x <;> first | decide | contradiction
  unfold toRest tick
  cases rf with
  | true =>
    simp only [Bool.true_or, if_true]
    split_ifs <;> omega
  | false =>
    rw [hstays.resolve_left (by decide)]
    by_cases hleft : left = 0
    · simp only [hleft, decide_true, Bool.or_true, if_true]
      split_ifs <;> simp_all <;> omega
    · simp only [hleft, decide_false, Bool.or_false, if_false]
      split_ifs <;> simp_all <;> omega

theorem toRest_ra2 : toRest ra2 (decide (left = 0)) (tick left) < toRest ra2 false left := by
  have hreload : RELOAD = 1490 := rfl
  unfold toRest tick
  by_cases hleft : left = 0
  · simp [hleft, hreload, toIdle, stays]
  · simp [hleft, stays]
    omega

/-- The refresh starts, and the timer that runs out now is not seen. -/
theorem toRest_idle : toRest rf0 false (tick left) < toRest idle true left := by
  have hreload : RELOAD = 1490 := rfl
  have htick : tick left < 6 ↔ 0 < left ∧ left ≤ 6 := by
    unfold tick
    split_ifs <;> omega
  show 6 + (if tick left < 6 then 7 else 0) < 0 + 7 + (if 0 < left ∧ left ≤ 0 + 6 then 7 else 0)
  split_ifs <;> omega

end State

namespace Regs

def left (s : Regs) : Nat := RELOAD - s.rfCounter

def toRest (s : Regs) : Nat := s.rstate.toRest s.rfPending s.left

structure Resting (s : Regs) : Prop where
  rstate : s.rstate = .idle
  rfPending : s.rfPending = false

variable {i : Input} {captured : Half} {s s' : Regs}

theorem Clock.left (h : Clock i captured s s') (hinit : s.rstate.isInit = false)
    (hle : s.rfCounter ≤ RELOAD) : s'.left = State.tick s.left := by
  unfold Regs.left State.tick
  rw [h.rfCounter, prepared_rfCounter, hinit]
  by_cases hexp : s.rfCounter = RELOAD
  · simp [expires, hexp]
  · have hfalse : s.expires = false := by simpa [expires] using hexp
    rw [hfalse, if_neg (by omega : ¬ RELOAD - s.rfCounter = 0)]
    show RELOAD - (s.rfCounter + 1) = _
    omega

theorem expires_eq (hle : s.rfCounter ≤ RELOAD) : s.expires = decide (s.left = 0) := by
  rw [expires, beq_eq_decide, decide_eq_decide, Regs.left]
  omega

structure Calm (s : Regs) : Prop where
  pending : s.pending = false
  rstate : s.rstate.moving = []

theorem Clock.toRest_eq (h : Clock i captured s s') (hinit : s.rstate.isInit = false)
    (hidle : s.rstate ≠ .idle) (hle : s.rfCounter ≤ RELOAD) :
    s'.toRest = s'.rstate.toRest (s.rfPending || decide (s.left = 0)) (State.tick s.left) := by
  rw [Regs.toRest, h.left hinit hle, h.rfPending hidle, expires_eq hle]

theorem Clock.toRest (h : Clock i captured s s') (hinit : s.rstate.isInit = false)
    (hcalm : Calm s) (hle : s.rfCounter ≤ RELOAD) (hrest : ¬ Resting s) :
    s'.toRest < s.toRest := by
  have hp := hcalm.pending
  have hmoving := hcalm.rstate
  by_cases hidle : s.rstate = .idle
  · have hrf : s.rfPending = true := by
      by_contra hrf
      exact hrest ⟨hidle, by simpa using hrf⟩
    rw [Regs.toRest, Regs.toRest, h.left hinit hle, hidle, hrf]
    cases h with
    | idle =>
      simp only [idleStep, hrf, if_true]
      exact State.toRest_idle
    | _ => simp_all
  · rw [h.toRest_eq hinit hidle hle]
    unfold Regs.toRest
    have hedge : ∀ {y : State}, y.toIdle + 1 = s.rstate.toIdle → s.rstate.toIdle ≤ 6 →
        (s.rfPending = true ∨ y.stays = s.rstate.stays) →
        y.toRest (s.rfPending || decide (s.left = 0)) (State.tick s.left) <
          s.rstate.toRest s.rfPending s.left := State.toRest_edge
    cases h with
    | idle h => exact absurd h hidle
    | @rest after h address =>
      obtain ⟨hlt, hle, hstays⟩ := State.toIdle_rest _ h
      exact hedge hlt hle (.inr hstays)
    | stay h hrf hp =>
      rw [h, hrf]
      exact State.toRest_ra2
    | close h hrow =>
      have hrf : s.rfPending = true := hrow.resolve_right (by simp [hp])
      exact hedge (by rw [h]; rfl) (by rw [h]; decide) (.inl hrf)
    | wr2 h => exact hedge (by rw [h]; rfl) (by rw [h]; decide) (.inr (by rw [h]; rfl))
    | read h hrf hrd hwr => exact absurd hp (by simp [Regs.pending, hrd])
    | write h hrf hrd hwr => exact absurd hp (by simp [Regs.pending, hwr])
    | wr0 h | wr3Stay h | wr3Close h | wr3Read h | wr3Write h | wr3Refresh h | rd0 h | rd6 h =>
      exact absurd hmoving (by rw [h]; decide)
    | again h =>
      simp only [List.mem_cons, Prod.mk.injEq, List.not_mem_nil, or_false] at h
      rcases h with h | h <;> exact absurd hmoving (by rw [h.1]; decide)
    | last h | capture h =>
      simp only [List.mem_cons, List.not_mem_nil, or_false] at h
      rcases h with h | h <;> exact absurd hmoving (by rw [h]; decide)

theorem Clock.resting (h : Clock i captured s s') (hp : s.pending = false) (hrest : Resting s) :
    Resting s' := by
  cases h with
  | idle => exact ⟨by simp [idleStep, hrest.rfPending, hp], rfl⟩
  | _ => simp_all [hrest.rstate]

theorem toRest_le (s : Regs) : s.toRest ≤ RELOAD + 13 := by
  have hidle : s.rstate.toIdle ≤ 6 := by cases s.rstate <;> decide
  have hleft : s.left ≤ RELOAD := Nat.sub_le _ _
  have hreload : RELOAD = 1490 := rfl
  unfold Regs.toRest State.toRest
  split_ifs <;> omega

end Regs

namespace System

variable {i : SystemInput} {s s₀ : System} {inputs : Nat → SystemInput} {start : BitVec 15}

theorem calm_of_dues (h : s.dues = []) : s.regs.Calm := by
  rw [dues, List.append_eq_nil_iff, Regs.dues, List.append_eq_nil_iff, Regs.answering,
    List.append_eq_nil_iff] at h
  obtain ⟨-, ⟨-, hmoving⟩, hwaiting⟩ := h
  refine ⟨?_, hmoving⟩
  unfold Regs.waiting at hwaiting
  simpa using hwaiting

theorem run_start (hstart : 140 ≤ start.toNat) (h : Reset start s₀)
    (inputs : Nat → SystemInput) :
    (run s₀ inputs start.toNat).regs.rstate = .idle ∧
      (run s₀ inputs start.toNat).regs.rfCounter = 0 := by
  obtain ⟨n, hn⟩ : ∃ n, start.toNat = n + 1 + 1 := ⟨start.toNat - 2, by omega⟩
  rcases run_phase hstart h inputs n with ⟨k, hinit, hk⟩ | ⟨-, hle⟩
  · obtain rfl : k = 1 := by omega
    rw [hn, run, Run.states_succ, hinit.regs_next]
    exact ⟨rfl, rfl⟩
  · omega

theorem rfCounter_le (hstart : 140 ≤ start.toNat) (h : Reset start s₀) {n : Nat}
    (hn : start.toNat ≤ n) : (run s₀ inputs n).regs.rfCounter ≤ RELOAD := by
  induction n, hn using Nat.le_induction with
  | base =>
    rw [(run_start hstart h inputs).2]
    exact Nat.zero_le _
  | succ n hn ih =>
    have hready := ready_run hstart h inputs hn
    show (System.next _ (run s₀ inputs n)).regs.rfCounter ≤ RELOAD
    rw [hready.rfCounter_next]
    by_cases hexp : (run s₀ inputs n).regs.rfCounter = RELOAD
    · simp [Regs.expires, hexp]
    · have hfalse : (run s₀ inputs n).regs.expires = false := by simpa [Regs.expires] using hexp
      rw [hfalse]
      show (run s₀ inputs n).regs.rfCounter + 1 ≤ RELOAD
      omega

theorem keeps_of_silent (h : (i.wbi.cyc && i.wbi.stb) = false) : keeps i s = none := by
  unfold keeps takes Mosi.taken
  simp [h]

theorem asked_silent (hstart : 140 ≤ start.toNat) (h : Reset start s₀) {n : Nat}
    (hsilent : ∀ m, n ≤ m → ((inputs m).wbi.cyc && (inputs m).wbi.stb) = false) {m : Nat}
    (hm : n ≤ m) : (exchange s₀ inputs m).asked = (exchange s₀ inputs n).asked := by
  induction m, hm using Nat.le_induction with
  | base => rfl
  | succ m hm ih =>
    have hnone := keeps_of_silent (s := run s₀ inputs m) (hsilent m hm)
    have hstep : (exchange s₀ inputs (m + 1)).asked =
        (exchange s₀ inputs m).asked ++ (keeps (inputs m) (run s₀ inputs m)).toList :=
      Exchange.asked_step (stray_run hstart h inputs (m + 1))
    rw [hstep, hnone, Option.toList_none, List.append_nil]
    exact ih

/-- Once the bus is silent the chip is not refreshed any more. -/
theorem silent_bus_not_refreshed (hstart : 140 ≤ start.toNat) (h : Reset start s₀)
    {inputs : Nat → SystemInput} {n : Nat} (hn : start.toNat ≤ n)
    (hsilent : ∀ m, n ≤ m → ((inputs m).wbi.cyc && (inputs m).wbi.stb) = false) {m : Nat}
    (hm : n + 1542 ≤ m) : (run s₀ inputs m).regs.command = .nop := by
  have hready : ∀ k, n ≤ k → Ready (run s₀ inputs k) := fun k hk =>
    ready_run hstart h inputs (hn.trans hk)
  -- all that was asked for is answered
  have hcalm : ∀ k, n + 39 ≤ k → (run s₀ inputs k).regs.Calm := by
    intro k hk
    have hall := requests_within hstart h inputs (hn.trans (by omega : n ≤ k - 39))
    have hasked := congrArg List.length ((asked_silent hstart h hsilent (by omega : n ≤ k)).trans
      (asked_silent hstart h hsilent (by omega : n ≤ k - 39)).symm)
    simp only [Exchange.asked, List.length_append, List.length_map] at hasked
    rw [Nat.sub_add_cancel (by omega)] at hall
    apply calm_of_dues
    rw [← List.length_eq_zero_iff, ← length_waiting (@run_served s₀ inputs start hstart h k)]
    omega
  have hrest : (run s₀ inputs m).regs.Resting := by
    have hle := (run s₀ inputs (n + 39)).regs.toRest_le
    have hreload : RELOAD = 1490 := rfl
    refine Run.settled_of_rank (n := n + 39) (B := fun k => (run s₀ inputs k).regs.Resting)
      (fun k => (run s₀ inputs k).regs.toRest) ?_ ?_ (by omega)
    · intro k hk hrest
      exact (hready k (by omega)).clock.resting (hcalm k hk).pending hrest
    · intro k hk hrest
      have hk' := hready k (by omega)
      exact hk'.clock.toRest hk'.isInit (hcalm k hk) (rfCounter_le hstart h (by omega)) hrest
  rw [(hready m (by omega)).command, hrest.rstate]
  rfl

theorem silent_bus_not_refreshed_quiet :
    (run (poweredUp 16384) (fun _ => quiet) 20000).regs.command = .nop :=
  silent_bus_not_refreshed (by decide) (reset_poweredUp 16384) (n := 16384) (by decide)
    (fun _ _ => rfl) (by decide)

end System

/-! ## Rows that are closed -/

namespace State

def sinceOpen : State → Nat
  | ra1 => 1
  | ra2 => 2
  | wr3 | rd1 => 4
  | wr2 | rd3 | rd4 | rd5 | rd6 => 5
  | _ => 3

theorem before_ra1 {x : State} (h : ra1 ∈ successors x) : x = ra0 := by
  revert h
  cases x <;> decide

theorem before_ra2 {x : State} (h : ra2 ∈ successors x) :
    x = ra1 ∨ x = ra2 ∨ x ≠ ra0 ∧ 4 ≤ x.sinceOpen := by
  revert h
  cases x <;> decide

theorem keeps_sinceOpen : keeps sinceOpen .act := by
  intro x
  cases x <;> decide

end State

namespace Regs

variable {i : Input} {captured : Half} {s s' : Regs}

theorem pending_congr (hrd : s'.rdPending = s.rdPending) (hwr : s'.wrPending = s.wrPending) :
    s'.pending = s.pending := by
  rw [pending, pending, hrd, hwr]

/-- What waits is not taken out of the slot while its row is opened. -/
theorem Clock.held (h : Clock i captured s s') (hs : s.rstate = .ra0 ∨ s.rstate = .ra1)
    (hp : s.pending = true) : s'.pending = true := by
  have hne : s.rstate ∉ [.idle, .ra2, .wr0, .wr2, .wr3, .rd0, .rd1, .rd3, .rd4, .rd5, .rd6] := by
    rcases hs with hs | hs <;> rw [hs] <;> decide
  cases h with
  | @rest after h address =>
    obtain ⟨hrd, hwr⟩ := pending_prepared (i := i) hp
    exact (pending_congr hrd hwr).trans hp
  | idle h | stay h | close h | read h | write h | wr0 h | wr2 h | wr3Stay h | wr3Close h
  | wr3Read h | wr3Write h | wr3Refresh h | rd0 h | rd6 h => exact absurd (by rw [h]; decide) hne
  | again h | last h | capture h =>
    simp only [List.mem_cons, Prod.mk.injEq, List.not_mem_nil, or_false] at h
    rcases h with h | h <;> simp [h] at hne

theorem sameRow_idleStep (hp : s.pending = true) : (idleStep s (prepared i s)).sameRow = true := by
  have haddr : (idleStep s (prepared i s)).reqAddrQ = s.reqAddrQ := by
    show (prepared i s).reqAddrQ = _
    simp [takesRead, takesWrite, hp]
  rw [Regs.sameRow, addrRow, addrBank, haddr]
  simp [idleStep, addrRow, addrBank]

theorem Clock.opens (h : Clock i captured s s') (hs : s'.rstate = .ra0) :
    s'.pending = true ∧ s'.sameRow = true := by
  cases h with
  | idle h =>
    have hp : s.pending = true := by
      simp only [idleStep] at hs
      split_ifs at hs
      assumption
    obtain ⟨hrd, hwr⟩ := pending_prepared (i := i) hp
    exact ⟨(pending_congr hrd hwr).trans hp, sameRow_idleStep hp⟩
  | @rest after h address =>
    have hafter : after = .ra0 := hs
    subst hafter
    simp at h
  | @again after h =>
    have hafter : after = .ra0 := hs
    subst hafter
    simp at h
  | stay h | close h | read h | write h | wr0 h | wr2 h | wr3Stay h | wr3Close h
  | wr3Read h | wr3Write h | wr3Refresh h | rd0 h | rd6 h | last h | capture h => cases hs

/-- The row stays open only if nothing waits. -/
theorem Clock.waits (h : Clock i captured s s') (hx : s.rstate = .ra2) (hy : s'.rstate = .ra2) :
    s.pending = false := by
  cases h with
  | stay h hrf hp => exact hp
  | @rest after h =>
    have hafter : after = .ra2 := hy
    subst hafter
    simp [hx] at h
  | idle h | wr3Stay h | rd6 h => exact absurd (hx.symm.trans h) (by decide)
  | @again after h =>
    have hafter : after = .ra2 := hy
    subst hafter
    simp at h
  | close | read | write | wr0 | wr2 | wr3Close | wr3Read | wr3Write | wr3Refresh | rd0 | last
  | capture => cases hy

theorem Clock.closes (h : Clock i captured s s') (hs : s'.rstate = .dr0) :
    s.rstate = .wr2 ∨ s.rstate = .ra2 ∧
      (s'.rfPending = true ∨ s.pending = true ∧ s.sameRow = false) := by
  have hrf := h.rfPending
  cases h with
  | close h hrow =>
    refine .inr ⟨h, hrow.imp_left fun hrf' => ?_⟩
    rw [hrf (by rw [h]; decide), hrf']
    rfl
  | wr2 h => exact .inl h
  | idle =>
    simp only [idleStep] at hs
    split_ifs at hs
  | @rest after h | @again after h =>
    have hafter : after = .dr0 := hs
    subst hafter
    simp at h
  | stay h | read h | write h | wr0 h | wr3Stay h | wr3Close h
  | wr3Read h | wr3Write h | wr3Refresh h | rd0 h | rd6 h | last h | capture h => cases hs

end Regs

namespace System

variable {i : SystemInput} {s s₀ : System} {inputs : Nat → SystemInput} {start : BitVec 15}

/-- A row that is opened is the one of the request that waits. -/
structure Opening (s : System) : Prop where
  opening : s.regs.rstate = .ra0 ∨ s.regs.rstate = .ra1 →
    s.regs.pending = true ∧ s.regs.sameRow = true
  since : ∀ b, s.regs.rstate.sinceOpen ≤ s.chip.ras b
  ra2 : s.regs.rstate = .ra2 →
    (∀ b, 5 ≤ s.chip.ras b) ∨ s.regs.pending = true ∧ s.regs.sameRow = true
  dr0 : s.regs.rstate = .dr0 → (∀ b, 5 ≤ s.chip.ras b) ∨ s.regs.rfPending = true

theorem Opening.next (h : Opening s) (hready : Ready s) : Opening (next i s) := by
  have hclock := hready.clock (i := i)
  have hsucc := hclock.rstate
  have hras := ras_next i s
  have hheld : s.regs.rstate = .ra0 ∨ s.regs.rstate = .ra1 →
      (System.next i s).regs.pending = true ∧ (System.next i s).regs.sameRow = true := by
    intro hs
    obtain ⟨hp, hrow⟩ := h.opening hs
    have hidle : s.regs.rstate ≠ .idle := by rcases hs with hs | hs <;> rw [hs] <;> decide
    exact ⟨hclock.held hs hp, (hclock.sameRow hready.toTidy hp hidle).trans hrow⟩
  have hfive : s.regs.rstate ≠ .ra0 → (∀ b, 4 ≤ s.chip.ras b) →
      ∀ b, 5 ≤ (System.next i s).chip.ras b := by
    intro hs hfour b
    have hact : s.regs.rstate.cmd ≠ .act := by
      revert hs
      generalize s.regs.rstate = x
      cases x <;> decide
    have hnext := hras b
    rw [if_neg hact] at hnext
    have := hfour b
    omega
  refine ⟨?_, ?_, ?_, ?_⟩
  · intro hs
    rcases hs with hs | hs
    · exact hclock.opens hs
    · exact hheld (.inl (State.before_ra1 (hs ▸ hsucc)))
  · exact fun b => since_next State.keeps_sinceOpen hready (h.since b) (hras b)
  · intro hs
    rcases State.before_ra2 (hs ▸ hsucc) with hra1 | hra2 | ⟨hra0, hlong⟩
    · exact .inr (hheld (.inr hra1))
    · have hp := hclock.waits hra2 hs
      rcases h.ra2 hra2 with hfar | ⟨hp', -⟩
      · exact .inl (hfive (by rw [hra2]; decide) fun b => (by decide : 4 ≤ 5).trans (hfar b))
      · exact absurd (hp.symm.trans hp') (by decide)
    · exact .inl (hfive hra0 fun b => hlong.trans (h.since b))
  · intro hs
    rcases hclock.closes hs with hwr2 | ⟨hra2, hrf | ⟨hp, hrow⟩⟩
    · refine .inl (hfive (by rw [hwr2]; decide) fun b => ?_)
      have := h.since b
      rw [hwr2] at this
      exact (by decide : 4 ≤ 5).trans this
    · exact .inr hrf
    · rcases h.ra2 hra2 with hfar | ⟨-, hrow'⟩
      · exact .inl (hfive (by rw [hra2]; decide) fun b => (by decide : 4 ≤ 5).trans (hfar b))
      · exact absurd (hrow.symm.trans hrow') (by decide)

theorem Opening.restored (h : Opening s) (hready : Ready s) (hrf : s.regs.rfPending = false) :
    s.chip.Restored timing s.regs.command := by
  rw [hready.command]
  cases hs : s.regs.rstate.cmd with
  | pre =>
    have hdr0 : s.regs.rstate = .dr0 := by
      have hlive := hready.live
      revert hlive hs
      generalize s.regs.rstate = x
      cases x <;> decide
    intro b _
    rcases h.dr0 hdr0 with hfive | hrf'
    · exact hfive b
    · exact absurd (hrf.symm.trans hrf') (by decide)
  | _ => trivial

theorem opening_run (hstart : 140 ≤ start.toNat) (h : Reset start s₀) {n : Nat}
    (hn : start.toNat ≤ n) : Opening (run s₀ inputs n) := by
  induction n, hn using Nat.le_induction with
  | base =>
    have hidle := (run_start hstart h inputs).1
    have hras := (ready_run hstart h inputs le_rfl).ras
    rw [hidle] at hras
    refine ⟨fun hs => ?_, by rwa [hidle], fun hs => ?_, fun hs => ?_⟩ <;> rw [hidle] at hs
    · exact absurd hs (by decide)
    · exact absurd hs (by decide)
    · exact absurd hs (by decide)
  | succ n hn ih => exact ih.next (ready_run hstart h inputs hn)

/-- A row is open for tRAS when it is closed, but for a refresh that is due. -/
theorem rows_restored (hstart : 140 ≤ start.toNat) (h : Reset start s₀)
    (inputs : Nat → SystemInput) (n : Nat)
    (hrf : (run s₀ inputs (n + 1)).regs.rfPending = false) :
    (run s₀ inputs (n + 1)).chip.Restored timing (run s₀ inputs (n + 1)).regs.command := by
  rcases run_phase hstart h inputs n with ⟨k, hinit, hk⟩ | ⟨hready, hn⟩
  · rw [hinit.command]
    split_ifs
    · intro b _
      have hras := hinit.ras b
      show 5 ≤ _
      omega
    all_goals trivial
  · exact (opening_run hstart h hn).restored hready hrf

set_option maxRecDepth 20000 in
/-- The scan leaves the first row in clock 148, with the bank open and no refresh due. -/
theorem rows_restored_scanning :
    (run (poweredUp 140) scanning (147 + 1)).regs.command = .prechargeAll ∧
      (run (poweredUp 140) scanning (147 + 1)).chip.precharged 0 = false ∧
      (run (poweredUp 140) scanning (147 + 1)).chip.Restored timing
        (run (poweredUp 140) scanning (147 + 1)).regs.command :=
  ⟨by decide +kernel, by decide +kernel,
    rows_restored (by decide) (reset_poweredUp 140) scanning 147 (by decide +kernel)⟩

/-! ## Requests that are lost -/

/-- What is taken and dropped is never answered. -/
theorem dropped_not_answered (hstart : 140 ≤ start.toNat) (h : Reset start s₀)
    (inputs : Nat → SystemInput) (n : Nat) :
    (Run.events (fun k => (run s₀ inputs k).wbo.answer) 0 n).length +
      (Run.events (fun k => if (run s₀ inputs k).drops then takes (inputs k) (run s₀ inputs k)
        else none) 0 n).length ≤
      (Run.events (fun k => takes (inputs k) (run s₀ inputs k)) 0 n).length := by
  have hanswers : (exchange s₀ inputs n).served.length =
      (Run.events (fun k => (run s₀ inputs k).wbo.answer) 0 n).length := by
    have hserved := Exchange.length_served_run (stray_run hstart h inputs) 0 n
    rw [Nat.zero_add] at hserved
    rw [Run.length_events]
    exact hserved.trans (Nat.zero_add _)
  have hkept := congrArg List.length (asked_run hstart h inputs n)
  rw [Exchange.asked, List.length_append, List.length_map] at hkept
  have hsplit : (Run.events (fun k => keeps (inputs k) (run s₀ inputs k)) 0 n).length +
      (Run.events (fun k => if (run s₀ inputs k).drops then takes (inputs k) (run s₀ inputs k)
        else none) 0 n).length =
      (Run.events (fun k => takes (inputs k) (run s₀ inputs k)) 0 n).length := by
    rw [Run.length_events, Run.length_events, Run.length_events, ← Finset.sum_add_distrib]
    refine Finset.sum_congr rfl fun k _ => ?_
    unfold keeps
    split_ifs <;> simp
  omega

/-- A write is dropped in clock 1632, when the first refresh falls due. -/
theorem dropped_not_answered_writing :
    ((run (poweredUp 140) writing 1632).drops &&
        (takes (writing 1632) (run (poweredUp 140) writing 1632)).isSome) = true ∧
      (Run.events (fun k => (run (poweredUp 140) writing k).wbo.answer) 0 1700).length +
        (Run.events (fun k => if (run (poweredUp 140) writing k).drops then
          takes (writing k) (run (poweredUp 140) writing k) else none) 0 1700).length ≤
        (Run.events (fun k => takes (writing k) (run (poweredUp 140) writing k)) 0 1700).length :=
  ⟨by decide +kernel, dropped_not_answered (by decide) (reset_poweredUp 140) writing 1700⟩

end System

end Sdram

end Xtc
