import Xtc.Sdram.System

/-!
# Commands — what the controller asks of the chip

From the first clock after a reset on, every command finds the chip in a state that takes it, and
comes no sooner than the distances of the data sheet allow.  The initialisation is followed by its
counter, the rest by the graph of the states: a bound on the clocks since a command is a number for
each state, and a clock keeps it along every edge.
-/

namespace Xtc

namespace Sdram

/-- The distances of the chip of the simulation, in clocks of 96 MHz. -/
def timing : Dram.Timing where
  tRC := 7
  tRP := 2
  tRCD := 2
  tRRD := 2
  tWR := 2
  tMRD := 2
  tRAS := 5

/-! ## The graph of the states -/

namespace State

def successors : State → List State
  | idle => [idle, rf0, ra0]
  | rf0 => [rf1]
  | rf1 => [rf2]
  | rf2 => [rf3]
  | rf3 => [rf4]
  | rf4 => [rf5]
  | rf5 => [idle]
  | ra0 => [ra1]
  | ra1 => [ra2]
  | ra2 => [ra2, dr0, rd0, wr0]
  | dr0 => [dr1]
  | dr1 => [idle]
  | wr0 => [wr3]
  | wr2 => [dr0]
  | wr3 => [ra2, wr2, rd0, wr0]
  | rd0 => [rd1]
  | rd1 => [rd3, rd6]
  | rd3 => [rd4]
  | rd4 => [rd5, rd6]
  | rd5 => [rd4]
  | rd6 => [ra2]
  | _ => []

def opened : State → Bool
  | ra1 | ra2 | dr0 | wr0 | wr2 | wr3 | rd0 | rd1 | rd3 | rd4 | rd5 | rd6 => true
  | _ => false

/-- Bit 10 of the address: the columns of a command, and the precharge of all banks. -/
def a10 : State → Option Bool
  | dr0 => some true
  | wr0 | wr3 | rd0 | rd1 | rd3 | rd4 | rd5 => some false
  | _ => none

/-! The least number of clocks since the chip saw a command. -/

def sinceRef : State → Nat
  | rf1 => 1
  | rf2 => 2
  | rf3 => 3
  | rf4 => 4
  | rf5 => 5
  | idle => 6
  | _ => 7

def sincePre : State → Nat
  | dr1 => 1
  | idle => 2
  | _ => 3

def sinceAct : State → Nat
  | ra1 => 1
  | ra2 => 2
  | _ => 3

def sinceWrite : State → Nat
  | wr0 | wr2 | wr3 | ra2 | rd0 => 1
  | _ => 2

/-- A bound for each state is kept along the edges if the command `c` starts it again. -/
def keeps (since : State → Nat) (c : Cmd) : Prop :=
  ∀ x, ∀ y ∈ successors x, since y ≤ if x.cmd = c then 1 else since x + 1

theorem keeps_sinceRef : keeps sinceRef .ref := by
  intro x
  cases x <;> decide

theorem keeps_sincePre : keeps sincePre .pre := by
  intro x
  cases x <;> decide

theorem keeps_sinceWrite : keeps sinceWrite .write := by
  intro x
  cases x <;> decide

theorem keeps_sinceAct : keeps sinceAct .act := by
  intro x
  cases x <;> decide

/-- A row is opened by `ra0` and closed by `dr0`. -/
theorem opened_successor : ∀ x, ∀ y ∈ successors x,
    y.opened = (x == ra0 || x.opened && x != dr0) := by
  intro x
  cases x <;> decide

theorem live_successor : ∀ x, ∀ y ∈ successors x, y.live = true := by
  intro x
  cases x <;> decide

theorem ra0_successor : ∀ x, ra0 ∈ successors x → x = idle := by
  intro x
  cases x <;> decide

end State

namespace Regs

variable {i : Input} {captured : Half} {s s' : Regs}

theorem Clock.rstate (h : Clock i captured s s') : s'.rstate ∈ s.rstate.successors := by
  cases h with
  | idle h =>
    rw [h]
    show ite _ _ _ ∈ _
    split_ifs <;> decide
  | rest h address =>
    simp only [List.mem_cons, List.not_mem_nil, or_false, Prod.mk.injEq] at h
    rcases h with h | h | h | h | h | h | h | h | h | h <;> simp [h, State.successors]
  | again h =>
    simp only [List.mem_cons, List.not_mem_nil, or_false, Prod.mk.injEq] at h
    rcases h with h | h <;> simp [h, State.successors, shifttags]
  | last h | capture h =>
    simp only [List.mem_cons, List.not_mem_nil, or_false] at h
    rcases h with h | h <;> simp [h, State.successors, shifttags]
  | close h | stay h | read h | write h | wr0 h | wr2 h | wr3Stay h | wr3Close h | wr3Read h
  | wr3Write h | wr3Refresh h | rd0 h | rd6 h => simp [h, State.successors, shifttags]

/-! The address pins of the clock after. -/

structure Tidy (s : Regs) : Prop where
  live : s.rstate.live = true
  one : (s.rdPending && s.wrPending) = false
  -- a write is a column of the open bank
  column : s.rstate = .wr0 → s.addrBank = s.bank
  row : s.rstate = .ra0 → s.address = s.actRow
  a10 : ∀ v ∈ s.rstate.a10, s.address.getLsbD 10 = v

theorem addrBank_prepared (h : s.pending = true) : (prepared i s).addrBank = s.addrBank := by
  simp [addrBank, takesRead, takesWrite, h]

theorem one_prepared (h : (s.rdPending && s.wrPending) = false)
    (hi : (i.reqRead && i.reqWrite) = false) :
    ((prepared i s).rdPending && (prepared i s).wrPending) = false := by
  rw [prepared_rdPending, prepared_wrPending, takesRead, takesWrite, pending]
  revert h hi
  cases s.rdPending <;> cases s.wrPending <;> cases i.reqRead <;> cases i.reqWrite <;> simp

theorem Clock.one (h : Clock i captured s s') (hs : (s.rdPending && s.wrPending) = false)
    (hi : (i.reqRead && i.reqWrite) = false) : (s'.rdPending && s'.wrPending) = false := by
  have hn := one_prepared hs hi
  cases h with
  | wr3Refresh => exact hs
  | read | wr3Read | again => exact Bool.false_and _
  | write | wr3Write => exact Bool.and_false _
  | idle | rest | stay | close | wr0 | wr2 | wr3Stay | wr3Close | rd0 | last | capture | rd6 =>
    exact hn

theorem Clock.actRow (h : Clock i captured s s') (hidle : s.rstate ≠ .idle) :
    s'.actRow = s.actRow := by
  cases h with
  | idle h => exact absurd h hidle
  | rest | stay | close | read | write | wr0 | wr2 | wr3Stay | wr3Close | wr3Read | wr3Write
  | wr3Refresh | rd0 | again | last | capture | rd6 => exact prepared_actRow i s

theorem Clock.bank (h : Clock i captured s s') (ht : Tidy s) (hidle : s.rstate ≠ .idle) :
    s'.bank = s.bank := by
  cases h with
  | idle h => exact absurd h hidle
  | wr0 h => exact ht.column h
  | read _ _ _ _ hrow | write _ _ _ _ hrow | wr3Read _ _ _ _ hrow | wr3Write _ _ _ _ hrow
  | again _ _ hrow => exact bank_of_sameRow hrow
  | rest | stay | close | wr2 | wr3Stay | wr3Close | wr3Refresh | rd0 | last | capture | rd6 =>
    exact prepared_bank i s

theorem Clock.a10 (h : Clock i captured s s') (ht : Tidy s) :
    ∀ v ∈ s'.rstate.a10, s'.address.getLsbD 10 = v := by
  have hten := ht.a10
  cases h with
  | idle h =>
    show ∀ v ∈ (ite _ _ _ : State).a10, _
    split_ifs <;> simp [State.a10]
  | rest h address =>
    simp only [List.mem_cons, List.not_mem_nil, or_false, Prod.mk.injEq] at h
    rcases h with h | h | h | h | h | h | h | h | h | h <;> simp [h, State.a10]
  | close | wr2 => simp [State.a10, setBit]
  | read | write | wr3Read | wr3Write => simp [State.a10, shifttags, readColumn, writeColumn]
  | again h =>
    simp only [List.mem_cons, List.not_mem_nil, or_false, Prod.mk.injEq] at h
    rcases h with h | h <;> simp [h, State.a10, shifttags, readColumn]
  -- the second column of a word
  | wr0 h | rd0 h =>
    rw [h] at hten
    simpa [State.a10, shifttags, setBit] using hten
  | capture h =>
    simp only [List.mem_cons, List.not_mem_nil, or_false] at h
    rcases h with h | h <;> rw [h] at hten <;>
      simpa [State.a10, setBit] using hten
  | stay | wr3Stay | wr3Close | wr3Refresh | last | rd6 => simp [State.a10, shifttags]

theorem Clock.column (h : Clock i captured s s') (hwr : s'.rstate = .wr0) :
    s'.addrBank = s'.bank := by
  cases h with
  | idle => simp [idleStep] at hwr; split_ifs at hwr
  | rest h =>
    cases hwr
    simp at h
  | again h =>
    cases hwr
    simp at h
  | write _ _ _ hpend | wr3Write _ _ _ hpend =>
    exact addrBank_prepared (by simp [pending, hpend])
  | stay | close | read | wr0 | wr2 | wr3Stay | wr3Close | wr3Read | wr3Refresh | rd0 | last
  | capture | rd6 => cases hwr

theorem Clock.tidy (h : Clock i captured s s') (ht : Tidy s)
    (hi : (i.reqRead && i.reqWrite) = false) : Tidy s' where
  live := State.live_successor _ _ h.rstate
  one := h.one ht.one hi
  column := h.column
  row hra := by
    have hidle := State.ra0_successor _ (hra ▸ h.rstate)
    cases h with
    | idle => rfl
    | rest h => rw [hidle] at h; simp at h
    | again h => rw [hidle] at h; simp at h
    | last h | capture h => rw [hidle] at h; simp at h
    | stay h | close h | read h | write h | wr0 h | wr2 h | wr3Stay h | wr3Close h | wr3Read h
    | wr3Write h | wr3Refresh h | rd0 h | rd6 h => cases h.symm.trans hidle
  a10 := h.a10 ht

end Regs

/-! ## The counters of the chip -/

namespace System

section Counters

variable (i : SystemInput) (s : System)

theorem rc_next :
    (next i s).chip.rc = if s.regs.rstate.cmd = .ref then 1 else s.chip.rc + 1 := by
  unfold next Dram.Chip.clock Regs.command
  cases s.regs.rstate.cmd <;> cases s.regs.address.getLsbD 10 <;> rfl

theorem mrd_next :
    (next i s).chip.mrd = if s.regs.rstate.cmd = .mrs then 1 else s.chip.mrd + 1 := by
  unfold next Dram.Chip.clock Regs.command
  cases s.regs.rstate.cmd <;> cases s.regs.address.getLsbD 10 <;> rfl

theorem rrd_next :
    (next i s).chip.rrd = if s.regs.rstate.cmd = .act then 1 else s.chip.rrd + 1 := by
  unfold next Dram.Chip.clock Regs.command
  cases s.regs.rstate.cmd <;> cases s.regs.address.getLsbD 10 <;> rfl

theorem rp_next (b : BitVec 2) :
    (if s.regs.rstate.cmd = .pre then 1 else s.chip.rp b + 1) ≤ (next i s).chip.rp b := by
  unfold next Dram.Chip.clock Regs.command
  cases s.regs.rstate.cmd <;> cases s.regs.address.getLsbD 10 <;>
    simp only [reduceCtorEq, if_true, if_false, Bool.false_eq_true, le_refl]
  split_ifs <;> omega

theorem ras_next (b : BitVec 2) :
    (if s.regs.rstate.cmd = .act then 1 else s.chip.ras b + 1) ≤ (next i s).chip.ras b := by
  unfold next Dram.Chip.clock Regs.command
  cases s.regs.rstate.cmd <;> cases s.regs.address.getLsbD 10 <;>
    simp only [reduceCtorEq, if_true, if_false, Bool.false_eq_true, le_refl]
  all_goals split_ifs <;> omega

theorem wr_next (b : BitVec 2) :
    (if s.regs.rstate.cmd = .write then 1 else s.chip.wr b + 1) ≤ (next i s).chip.wr b := by
  unfold next Dram.Chip.clock Regs.command
  cases s.regs.rstate.cmd <;> cases s.regs.address.getLsbD 10 <;>
    simp only [reduceCtorEq, if_true, if_false, Bool.false_eq_true, le_refl]
  · split_ifs <;> omega
  · omega

theorem mode_next (h : s.regs.rstate.cmd ≠ .mrs) : (next i s).chip.mode = s.chip.mode := by
  unfold next Dram.Chip.clock Regs.command
  cases hc : s.regs.rstate.cmd <;> cases s.regs.address.getLsbD 10 <;>
    first
      | rfl
      | exact absurd hc h

end Counters

/-! ## After the initialisation -/

structure Ready (s : System) : Prop extends Regs.Tidy s.regs where
  mode : s.chip.mode = modeWord
  opened : s.regs.rstate.opened = true → s.chip.Open s.regs.bank s.regs.actRow
  closed : s.regs.rstate.opened = false → s.chip.Closed
  rc : s.regs.rstate.sinceRef ≤ s.chip.rc
  mrd : 2 ≤ s.chip.mrd
  rrd : s.regs.rstate.sinceAct ≤ s.chip.rrd
  rp : ∀ b, s.regs.rstate.sincePre ≤ s.chip.rp b
  ras : ∀ b, s.regs.rstate.sinceAct ≤ s.chip.ras b
  wr : ∀ b, s.regs.rstate.sinceWrite ≤ s.chip.wr b

section Step

variable {i : SystemInput} {s : System}

theorem input_one : ((input i).reqRead && (input i).reqWrite) = false := by
  rw [input]
  cases i.wbi.cyc <;> cases i.wbi.stb <;> cases i.wbi.we <;> rfl

theorem Ready.clock (h : Ready s) : Regs.Clock (input i) (dramDq i s) s.regs (next i s).regs :=
  Regs.clock_next h.live h.one

theorem Ready.cmd_ne_mrs (h : Ready s) : s.regs.rstate.cmd ≠ .mrs := by
  have hlive := h.live
  revert hlive
  cases s.regs.rstate <;> decide

/-- What the pins say in a state. -/
theorem Ready.command (h : Ready s) : s.regs.command =
    match s.regs.rstate.cmd with
    | .read => .read s.regs.bank (s.regs.address.extractLsb' 0 8)
    | .write => .write s.regs.bank (s.regs.address.extractLsb' 0 8)
    | .act => .active s.regs.bank s.regs.actRow
    | .pre => .prechargeAll
    | .ref => .refresh
    | _ => .nop := by
  have hlive := h.live
  have hten := h.a10
  have hrow := h.row
  unfold Regs.command
  cases hs : s.regs.rstate <;> rw [hs] at hlive hten hrow <;>
    simp_all [State.live, State.cmd, State.a10]

theorem Ready.opened_next (h : Ready s) (hopen : (next i s).regs.rstate.opened = true) :
    (next i s).chip.Open (next i s).regs.bank (next i s).regs.actRow := by
  have hclock := h.clock (i := i)
  rw [State.opened_successor _ _ hclock.rstate] at hopen
  have hidle : s.regs.rstate ≠ .idle := by
    intro hidle
    rw [hidle] at hopen
    exact absurd hopen (by decide)
  rw [hclock.bank h.toTidy hidle, hclock.actRow hidle]
  show (s.chip.clock masked s.regs.command _ _).Open _ _
  rw [h.command]
  by_cases hra : s.regs.rstate = .ra0
  · rw [hra]
    exact (h.closed (by rw [hra]; rfl)).active
  · have hold : s.regs.rstate.opened = true ∧ s.regs.rstate ≠ .dr0 := by simpa [hra] using hopen
    have hchip := h.opened hold.1
    revert hold hra
    cases s.regs.rstate <;> intro hra hold <;>
      first
        | exact hchip
        | exact absurd hold (by decide)

theorem Ready.closed_next (h : Ready s) (hopen : (next i s).regs.rstate.opened = false) :
    (next i s).chip.Closed := by
  have hclock := h.clock (i := i)
  rw [State.opened_successor _ _ hclock.rstate] at hopen
  show (s.chip.clock masked s.regs.command _ _).Closed
  rw [h.command]
  by_cases hpre : s.regs.rstate.cmd = .pre
  · rw [hpre]
    exact Dram.Chip.closed_prechargeAll
  · have hdr : s.regs.rstate ≠ .dr0 := fun hdr => hpre (by rw [hdr]; rfl)
    have hold : s.regs.rstate ≠ .ra0 ∧ s.regs.rstate.opened = false := by simpa [hdr] using hopen
    have hchip := h.closed hold.2
    revert hold hpre
    cases s.regs.rstate <;> intro hpre hold <;>
      first
        | exact hchip
        | exact absurd hold (by decide)
        | exact absurd rfl hpre

/-- A bound that the edges keep, for a counter that a command starts again. -/
theorem since_next {since : State → Nat} {c : Cmd} (hkeeps : State.keeps since c) {old new : Nat}
    (h : Ready s) (hold : since s.regs.rstate ≤ old)
    (hnew : (if s.regs.rstate.cmd = c then 1 else old + 1) ≤ new) :
    since (next i s).regs.rstate ≤ new := by
  have hedge := hkeeps _ _ (h.clock (i := i)).rstate
  split_ifs at hedge hnew <;> omega

theorem Ready.next (h : Ready s) : Ready (next i s) where
  toTidy := h.clock.tidy h.toTidy input_one
  mode := (mode_next i s h.cmd_ne_mrs).trans h.mode
  opened := h.opened_next
  closed := h.closed_next
  rc := since_next State.keeps_sinceRef h h.rc (rc_next i s).ge
  mrd := by
    rw [mrd_next, if_neg h.cmd_ne_mrs]
    exact h.mrd.trans (Nat.le_succ _)
  rrd := since_next State.keeps_sinceAct h h.rrd (rrd_next i s).ge
  rp b := since_next State.keeps_sincePre h (h.rp b) (rp_next i s b)
  ras b := since_next State.keeps_sinceAct h (h.ras b) (ras_next i s b)
  wr b := since_next State.keeps_sinceWrite h (h.wr b) (wr_next i s b)

theorem Ready.permitted (h : Ready s) : s.chip.Permitted timing modeWord s.regs.command := by
  have hrc := h.rc
  have hrrd := h.rrd
  have hrp := h.rp
  have hras := h.ras
  have hwr := h.wr
  have hlive := h.live
  have hclosed := h.closed
  have hbank : s.regs.rstate.opened = true → s.chip.precharged s.regs.bank = false := by
    intro hopen
    simpa using (h.opened hopen).1 s.regs.bank
  rw [h.command]
  revert hrc hrrd hrp hras hwr hlive hclosed hbank
  cases s.regs.rstate <;> intro hrc hrrd hrp hras hwr hlive hclosed hbank
  case rf0 => exact ⟨hclosed rfl, fun b => (hrp b).trans' (by decide), hrc, h.mrd⟩
  case ra0 =>
    exact ⟨hclosed rfl _, (hrp _).trans' (by decide), hrc, h.mrd, hrrd.trans' (by decide)⟩
  case dr0 => exact hwr
  case wr0 | wr3 | rd0 | rd1 | rd3 | rd4 | rd5 =>
    exact ⟨h.mode, hbank rfl, (hras _).trans' (by decide)⟩
  all_goals first
    | exact trivial
    | exact absurd hlive (by decide)

end Step

/-! ## The initialisation -/

/-- The state of a clock of the initialisation, by the counter it starts with. -/
def initAt (k : Nat) : State :=
  if k = 129 then .initPre
  else if k < 127 ∧ k % 16 = 14 then .initRef
  else if k = 2 then .initMrs
  else .initNop

/-- Clocks since the last refresh. -/
def initRc (k : Nat) : Nat := if k % 16 < 14 then 14 - k % 16 else 14

/-- With `k` clocks to go of `start`. -/
structure Initialising (start k : Nat) (s : System) : Prop where
  counter : s.regs.initCounter.toNat = k
  pos : 0 < k
  lt : k < start
  one : (s.regs.rdPending && s.regs.wrPending) = false
  rstate : s.regs.rstate = initAt k
  a10 : k = 129 → s.regs.address.getLsbD 10 = true
  word : k = 2 → s.regs.address = modeWord
  closed : k < 129 → s.chip.Closed
  mode : k < 2 → s.chip.mode = modeWord
  rc : if k < 126 then initRc k ≤ s.chip.rc else start - k ≤ s.chip.rc
  mrd : if k < 2 then 2 - k ≤ s.chip.mrd else start - k ≤ s.chip.mrd
  rrd : start - k ≤ s.chip.rrd
  rp : ∀ b, if k < 129 then 129 - k ≤ s.chip.rp b else start - k ≤ s.chip.rp b
  ras : ∀ b, start - k ≤ s.chip.ras b
  wr : ∀ b, start - k ≤ s.chip.wr b

section Init

variable {i : SystemInput} {s : System} {start k : Nat}

theorem counter_refresh_iff (c : BitVec 15) :
    (c.extractLsb' 7 8 = 0 ∧ c.extractLsb' 0 4 = 15) ↔ c.toNat < 128 ∧ c.toNat % 16 = 15 := by
  have hlt := c.isLt
  rw [← BitVec.toNat_inj, ← BitVec.toNat_inj, BitVec.extractLsb'_toNat, BitVec.extractLsb'_toNat,
    Nat.shiftRight_eq_div_pow, Nat.shiftRight_eq_div_pow]
  show c.toNat / 128 % 256 = 0 ∧ c.toNat / 1 % 16 = 15 ↔ _
  omega

/-- A clock of the initialisation, by its counter. -/
theorem initStep_eq {i : Input} {s n : Regs} (hk : s.initCounter.toNat = k) (hpos : 0 < k) :
    Regs.initStep i s n = { n with
      rstate := if k = 1 then .idle else initAt (k - 1)
      address :=
        if k = 130 then setBit i.x.address 10 else if k = 3 then modeWord else i.x.address
      bank := 0
      rfCounter := 0 } := by
  have h130 : s.initCounter = 130 ↔ k = 130 := by rw [← BitVec.toNat_inj, hk]; rfl
  have h3 : s.initCounter = 3 ↔ k = 3 := by rw [← BitVec.toNat_inj, hk]; rfl
  have h1 : s.initCounter = 1 ↔ k = 1 := by rw [← BitVec.toNat_inj, hk]; rfl
  have href := counter_refresh_iff s.initCounter
  rw [hk] at href
  have hat : k - 1 = 129 ↔ k = 130 := by omega
  have hat' : k - 1 < 127 ∧ (k - 1) % 16 = 14 ↔ k < 128 ∧ k % 16 = 15 := by omega
  have hat'' : k - 1 = 2 ↔ k = 3 := by omega
  unfold Regs.initStep initAt
  simp only [h130, h3, h1, href, hat, hat', hat'']
  by_cases hone : k = 1
  · simp [hone]
  · by_cases hpre : k = 130
    · simp [hpre]
    · by_cases hmrs : k = 3
      · simp [hmrs]
      · simp only [hone, hpre, hmrs, if_false]
        split_ifs <;> rfl

theorem isInit_initAt (k : Nat) : (initAt k).isInit = true := by
  unfold initAt
  split_ifs <;> rfl

theorem fsm_of_isInit {i : Input} {captured : Half} {s n : Regs} (h : s.rstate.isInit = true) :
    Regs.fsm i captured s n = Regs.initStep i s n := by
  unfold Regs.fsm
  cases hs : s.rstate <;> first | rfl | exact absurd (hs ▸ h) (by decide)

theorem cmd_initAt (k : Nat) : (initAt k).cmd =
    if k = 129 then .pre
    else if k < 127 ∧ k % 16 = 14 then .ref
    else if k = 2 then .mrs
    else .nop := by
  unfold initAt
  split_ifs <;> rfl

theorem cmd_eq_ref (k : Nat) : (initAt k).cmd = .ref ↔ k < 127 ∧ k % 16 = 14 := by
  rw [cmd_initAt]
  split_ifs <;> simp <;> omega

theorem cmd_eq_mrs (k : Nat) : (initAt k).cmd = .mrs ↔ k = 2 := by
  rw [cmd_initAt]
  split_ifs <;> simp <;> omega

theorem cmd_eq_pre (k : Nat) : (initAt k).cmd = .pre ↔ k = 129 := by
  rw [cmd_initAt]
  split_ifs <;> simp <;> omega

theorem cmd_ne_act (k : Nat) : (initAt k).cmd ≠ .act := by
  rw [cmd_initAt]
  split_ifs <;> decide

theorem cmd_ne_write (k : Nat) : (initAt k).cmd ≠ .write := by
  rw [cmd_initAt]
  split_ifs <;> decide

theorem Initialising.regs_next (h : Initialising start k s) : (next i s).regs =
    { Regs.prepared (input i) s.regs with
      rstate := if k = 1 then .idle else initAt (k - 1)
      address :=
        if k = 130 then setBit i.x.address 10 else if k = 3 then modeWord else i.x.address
      bank := 0
      rfCounter := 0 } := by
  have hinit : s.regs.rstate.isInit = true := by rw [h.rstate, isInit_initAt]
  show Regs.fsm _ _ _ _ = _
  rw [fsm_of_isInit hinit, initStep_eq h.counter h.pos]
  rfl

theorem Initialising.command (h : Initialising start k s) : s.regs.command =
    if k = 129 then .prechargeAll
    else if k < 127 ∧ k % 16 = 14 then .refresh
    else if k = 2 then .mode modeWord
    else .nop := by
  unfold Regs.command
  rw [h.rstate, cmd_initAt]
  by_cases hpre : k = 129
  · simp only [hpre, h.a10 hpre, if_true]
  · by_cases hmrs : k = 2
    · simp [hmrs, h.word hmrs]
    · by_cases href : k < 127 ∧ k % 16 = 14 <;> simp [hpre, hmrs, href]

/-- All is quiet before a refresh, and before the mode is set. -/
theorem Initialising.quiet (h : Initialising start k s) (hstart : 140 ≤ start)
    (hk : k < 127 ∧ k % 16 = 14 ∨ k = 2) :
    (∀ b, s.chip.precharged b = true) ∧ (∀ b, timing.tRP ≤ s.chip.rp b) ∧
      timing.tRC ≤ s.chip.rc ∧ timing.tMRD ≤ s.chip.mrd := by
  have hrc := h.rc
  have hmrd := h.mrd
  unfold initRc at hrc
  refine ⟨h.closed (by omega), fun b => ?_, ?_, ?_⟩
  · have hrp := h.rp b
    rw [if_pos (by omega)] at hrp
    show 2 ≤ _
    omega
  · show 7 ≤ _
    split_ifs at hrc <;> omega
  · show 2 ≤ _
    split_ifs at hmrd <;> omega

theorem Initialising.permitted (h : Initialising start k s) (hstart : 140 ≤ start) :
    s.chip.Permitted timing modeWord s.regs.command := by
  rw [h.command]
  split_ifs with hpre href hmrs
  · intro b
    have hwr := h.wr b
    show 2 ≤ _
    omega
  · exact h.quiet hstart (.inl href)
  · exact h.quiet hstart (.inr hmrs)
  · exact trivial

theorem Initialising.closed_next (h : Initialising start k s) (hk : k - 1 < 129) :
    (next i s).chip.Closed := by
  show (s.chip.clock masked s.regs.command _ _).Closed
  rw [h.command]
  split_ifs with hpre href hmrs
  · exact Dram.Chip.closed_prechargeAll
  · exact (h.closed (by omega)).refresh
  · exact (h.closed (by omega)).mode modeWord
  · exact (h.closed (by omega)).nop

theorem Initialising.mode_next (h : Initialising start k s) (hk : k - 1 < 2) :
    (next i s).chip.mode = modeWord := by
  show (s.chip.clock masked s.regs.command _ _).mode = _
  rw [h.command]
  by_cases hmrs : k = 2
  · simp [hmrs, Dram.Chip.clock]
  · have hone : k = 1 := by
      have := h.pos
      omega
    have hmode := h.mode (by omega)
    simpa [hone, Dram.Chip.clock] using hmode

theorem Initialising.one_next (h : Initialising start k s) :
    ((next i s).regs.rdPending && (next i s).regs.wrPending) = false := by
  rw [h.regs_next]
  exact Regs.one_prepared h.one input_one

theorem Initialising.next (h : Initialising start k s) (hk : 1 < k) (hstart : 140 ≤ start) :
    Initialising start (k - 1) (next i s) where
  counter := by
    rw [h.regs_next]
    show (Regs.prepared (input i) s.regs).initCounter.toNat = _
    rw [Regs.prepared_initCounter, BitVec.toNat_sub, h.counter]
    have := s.regs.initCounter.isLt
    show (2 ^ 15 - 1 + k) % 2 ^ 15 = _
    rw [h.counter] at this
    omega
  pos := by omega
  lt := by
    have := h.lt
    omega
  one := h.one_next
  rstate := by
    rw [h.regs_next]
    exact if_neg (by omega)
  a10 hpre := by
    rw [h.regs_next]
    have hk : k = 130 := by omega
    simp [hk, setBit]
  word hmrs := by
    rw [h.regs_next]
    have hk : k = 3 := by omega
    simp [hk]
  closed := h.closed_next
  mode := h.mode_next
  rc := by
    have hrc := h.rc
    have hlt := h.lt
    rw [rc_next, h.rstate]
    simp only [cmd_eq_ref]
    unfold initRc at hrc ⊢
    split_ifs at hrc ⊢ <;> omega
  mrd := by
    have hmrd := h.mrd
    have hlt := h.lt
    rw [mrd_next, h.rstate]
    simp only [cmd_eq_mrs]
    split_ifs at hmrd ⊢ <;> omega
  rrd := by
    have hrrd := h.rrd
    have hlt := h.lt
    rw [rrd_next, h.rstate, if_neg (cmd_ne_act k)]
    omega
  rp b := by
    have hrp := h.rp b
    have hlt := h.lt
    have hnew := rp_next i s b
    rw [h.rstate] at hnew
    simp only [cmd_eq_pre] at hnew
    split_ifs at hrp hnew ⊢ <;> omega
  ras b := by
    have hras := h.ras b
    have hlt := h.lt
    have hnew := ras_next i s b
    rw [h.rstate, if_neg (cmd_ne_act k)] at hnew
    omega
  wr b := by
    have hwr := h.wr b
    have hlt := h.lt
    have hnew := wr_next i s b
    rw [h.rstate, if_neg (cmd_ne_write k)] at hnew
    omega

theorem Initialising.ready (h : Initialising start 1 s) (hstart : 140 ≤ start) :
    Ready (System.next i s) := by
  have hstate : (System.next i s).regs.rstate = .idle := by
    rw [h.regs_next]
    rfl
  have hcmd : s.regs.rstate.cmd = .nop := by
    rw [h.rstate]
    decide
  have hrc := h.rc
  have hmrd := h.mrd
  have hrrd := h.rrd
  simp only [initRc, Nat.reduceMod, Nat.reduceLT, if_true, Nat.reduceSub] at hrc hmrd
  refine
    { live := by rw [hstate]; rfl
      one := h.one_next
      column := by rw [hstate]; exact nofun
      row := by rw [hstate]; exact nofun
      a10 := by rw [hstate]; exact nofun
      mode := h.mode_next (by decide)
      opened := by rw [hstate]; exact nofun
      closed := fun _ => h.closed_next (by decide)
      rc := ?_, mrd := ?_, rrd := ?_, rp := fun b => ?_, ras := fun b => ?_, wr := fun b => ?_ }
  all_goals try rw [hstate]
  · rw [rc_next, hcmd, if_neg (by decide)]
    show 6 ≤ _
    omega
  · rw [mrd_next, hcmd, if_neg (by decide)]
    omega
  · rw [rrd_next, hcmd, if_neg (by decide)]
    show 3 ≤ _
    omega
  · have hrp := h.rp b
    have hnew := rp_next i s b
    rw [hcmd, if_neg (by decide)] at hnew
    rw [if_pos (by decide)] at hrp
    show 2 ≤ _
    omega
  · have hras := h.ras b
    have hnew := ras_next i s b
    rw [hcmd, if_neg (by decide)] at hnew
    show 3 ≤ _
    omega
  · have hwr := h.wr b
    have hnew := wr_next i s b
    rw [hcmd, if_neg (by decide)] at hnew
    show 2 ≤ _
    omega

/-- The first clock, in which the pins of a reset still set the mode. -/
theorem initialising_reset {start : BitVec 15} (hstart : 140 ≤ start.toNat) (h : Reset start s) :
    Initialising start.toNat (start.toNat - 1) (System.next i s) := by
  have hmrs := h.regs.rstate
  have hcounter : s.regs.initCounter.toNat = start.toNat := by rw [h.regs.initCounter]
  have hregs : (System.next i s).regs = { Regs.prepared (input i) s.regs with
      rstate := .initNop
      address :=
        if start.toNat = 130 then setBit i.x.address 10
        else if start.toNat = 3 then modeWord else i.x.address
      bank := 0
      rfCounter := 0 } := by
    have hat : initAt (start.toNat - 1) = .initNop := by
      unfold initAt
      split_ifs <;> first | omega | rfl
    show Regs.fsm _ _ _ _ = _
    rw [fsm_of_isInit (by rw [hmrs]; rfl), initStep_eq hcounter (by omega), if_neg (by omega), hat]
    rfl
  have hcmd : s.regs.rstate.cmd = .mrs := by rw [hmrs]; rfl
  refine
    { counter := ?_
      pos := by omega
      lt := by omega
      one := ?_
      rstate := ?_
      a10 := fun hk => absurd hk (by omega)
      word := fun hk => absurd hk (by omega)
      closed := fun hk => absurd hk (by omega)
      mode := fun hk => absurd hk (by omega)
      rc := ?_, mrd := ?_, rrd := ?_, rp := fun b => ?_, ras := fun b => ?_, wr := fun b => ?_ }
  · rw [hregs]
    show (Regs.prepared (input i) s.regs).initCounter.toNat = _
    rw [Regs.prepared_initCounter, BitVec.toNat_sub, hcounter]
    have := start.isLt
    show (2 ^ 15 - 1 + _) % 2 ^ 15 = _
    omega
  · rw [hregs]
    apply Regs.one_prepared _ input_one
    rw [h.regs.rdPending]
    rfl
  · rw [hregs]
    unfold initAt
    split_ifs <;> first | omega | rfl
  · rw [if_neg (by omega), rc_next, hcmd, if_neg (by decide)]
    omega
  · rw [if_neg (by omega), mrd_next, hcmd, if_pos rfl]
    omega
  · rw [rrd_next, hcmd, if_neg (by decide)]
    omega
  · have hnew := rp_next i s b
    rw [hcmd, if_neg (by decide)] at hnew
    rw [if_neg (by omega)]
    omega
  · have hnew := ras_next i s b
    rw [hcmd, if_neg (by decide)] at hnew
    omega
  · have hnew := wr_next i s b
    rw [hcmd, if_neg (by decide)] at hnew
    omega

end Init

/-! ## Runs -/

section Run

variable {start : BitVec 15} {s₀ : System}

theorem run_phase (hstart : 140 ≤ start.toNat) (h : Reset start s₀) (inputs : Nat → SystemInput)
    (n : Nat) :
    (∃ k, Initialising start.toNat k (run s₀ inputs (n + 1)) ∧ n + 1 + k = start.toNat) ∨
      Ready (run s₀ inputs (n + 1)) ∧ start.toNat ≤ n + 1 := by
  induction n with
  | zero => exact .inl ⟨_, initialising_reset hstart h, by omega⟩
  | succ n ih =>
    rcases ih with ⟨k, hinit, hk⟩ | ⟨hready, hn⟩
    · by_cases hone : k = 1
      · subst hone
        exact .inr ⟨hinit.ready hstart, by omega⟩
      · have hpos := hinit.pos
        exact .inl ⟨k - 1, hinit.next (by omega) hstart, by omega⟩
    · exact .inr ⟨hready.next, by omega⟩

/-- Every command that follows a reset is one the chip may be given. -/
theorem commands_permitted (hstart : 140 ≤ start.toNat) (h : Reset start s₀)
    (inputs : Nat → SystemInput) (n : Nat) :
    (run s₀ inputs (n + 1)).chip.Permitted timing modeWord
      (run s₀ inputs (n + 1)).regs.command := by
  rcases run_phase hstart h inputs n with ⟨k, hinit, -⟩ | ⟨hready, -⟩
  · exact hinit.permitted hstart
  · exact hready.permitted

theorem commands_permitted_scanning :
    Reset 16384 (poweredUp 16384) ∧
      ∀ n, (run (poweredUp 16384) scanning (n + 1)).chip.Permitted timing modeWord
        (run (poweredUp 16384) scanning (n + 1)).regs.command :=
  ⟨reset_poweredUp 16384, commands_permitted (by decide) (reset_poweredUp 16384) scanning⟩

end Run

end System

end Sdram

end Xtc
