import Xtc.Uart.Receiver

/-!
# Frame — what the receiver makes of a well-timed line

A start edge starts the bit timer at some phase of the tick, so that the sixteen ticks of a window
begin up to five ticks behind the bit they are for.  The first twelve lie in the bit, which is more
than the ten the filter asks for; the others lie in the next bit and are too few to matter.
-/

namespace Xtc.Uart

/-! ## The tick -/

namespace Brgen

/-- The clocks until `clkout` is up. -/
def dist (g : Brgen) : Nat := if g.clkout then 0 else g.cnt + 1

/-- A timer that counts down from `count`. -/
structure Counts (count : Nat) (g : Brgen) : Prop where
  cnt : g.cnt ≤ count
  reloaded : g.clkout = true → g.cnt = count

variable {count : Nat} {g : Brgen}

theorem dist_tick (h : g.clkout = true) : g.dist = 0 := by
  rw [dist, if_pos h]

theorem dist_pos (h : g.clkout = false) : 0 < g.dist := by
  rw [dist, h]
  exact Nat.succ_pos _

theorem Counts.dist_le (h : Counts count g) : g.dist ≤ count + 1 := by
  have := h.cnt
  unfold dist
  split <;> omega

theorem next_zero (h : g.cnt = 0) : g.next false true count = ⟨count, true⟩ := by
  simp [Brgen.next, h]

theorem next_pos (h : g.cnt ≠ 0) : g.next false true count = ⟨g.cnt - 1, false⟩ := by
  simp [Brgen.next, h]

theorem Counts.next (h : Counts count g) : Counts count (g.next false true count) := by
  by_cases h0 : g.cnt = 0
  · rw [next_zero h0]
    exact ⟨le_rfl, fun _ => rfl⟩
  · rw [next_pos h0]
    have := h.cnt
    exact ⟨by show g.cnt - 1 ≤ count; omega, fun hc => by cases hc⟩

theorem Counts.dist_next (h : Counts count g) :
    (g.next false true count).dist = if g.clkout then count else g.dist - 1 := by
  have hcnt := h.cnt
  have hreload := h.reloaded
  by_cases h0 : g.cnt = 0
  · rw [next_zero h0]
    cases htick : g.clkout with
    | true =>
      have := hreload htick
      simp only [dist, if_true]
      omega
    | false => simp [dist, h0, htick]
  · rw [next_pos h0]
    cases htick : g.clkout with
    | true =>
      have := hreload htick
      simp only [dist, Bool.false_eq_true, if_true, if_false]
      omega
    | false =>
      simp only [dist, htick, Bool.false_eq_true, if_false]
      omega

theorem Counts.dist_next_le (h : Counts count g) : (g.next false true count).dist ≤ count := by
  have := h.dist_le
  rw [h.dist_next]
  split <;> omega

end Brgen

namespace Receiver

variable {d : BitVec 16} {rx : Bool} {s : Receiver} {byte : BitVec 8} {v : Bool}
  {o w k n : Nat}

def period (d : BitVec 16) : Nat := d.toNat + 1

theorem period_pos (d : BitVec 16) : 0 < period d := Nat.succ_pos _

/-- The bits of a frame: a start bit, the byte from its lowest bit on, and a stop bit. -/
def frameBit (byte : BitVec 8) (w : Nat) : Bool :=
  if w = 0 then false else if w ≤ 8 then byte.getLsbD (w - 1) else true

/-! ## A window of sixteen ticks -/

/-- Clock `n` of a frame lies behind `k` ticks of window `w`, which is for a bit `v`; the first tick
of the frame came `o` clocks behind its start. -/
structure Timed (d : BitVec 16) (v : Bool) (o w k n : Nat) (s : Receiver) : Prop where
  timer : s.timer.Counts d.toNat
  tick : n + s.timer.dist = o + (16 * w + k) * period d
  bound : k ≤ 16
  baudreset : s.baudreset = false
  baudtick : baudtick s = decide (k = 16)
  cnt : s.baudgen.cnt = if k = 16 then 15 else 15 - k
  -- a high bit has been counted but for the first tick, until the filter shows it
  high : v = true → rxf s = true ∧ 10 ≤ k ∨
    rxf s = false ∧ k ≤ s.filter.count.toNat + 1 ∧ s.filter.count.toNat ≤ k ∧
      s.filter.count.toNat ≤ 10
  low : v = false → rxf s = false ∧ s.filter.count.toNat ≤ k - 12

theorem Timed.rxf_eq (h : Timed d v o w 16 n s) : rxf s = v := by
  cases v with
  | false => exact (h.low rfl).1
  | true =>
    rcases h.high rfl with hhigh | hhigh
    · exact hhigh.1
    · omega

theorem tick_time (d : BitVec 16) (w k : Nat) :
    (16 * w + (k + 1)) * period d = (16 * w + k) * period d + period d := by
  ring

/-- The tick behind a clock. -/
theorem Timed.tick_next (h : Timed d v o w k n s) (rx : Bool) :
    n + 1 + (next d rx s).timer.dist = o + (16 * w + (k + (rxBr s).toNat)) * period d := by
  have htick := h.tick
  show n + 1 + (s.timer.next false true d.toNat).dist = _
  rw [h.timer.dist_next]
  cases hbr : rxBr s with
  | true =>
    have hyes : s.timer.clkout = true := hbr
    rw [Brgen.dist_tick hbr] at htick
    rw [if_pos hyes, Bool.toNat_true, tick_time, period]
    rw [period] at htick
    omega
  | false =>
    have hno : s.timer.clkout = false := hbr
    have hpos := Brgen.dist_pos hno
    rw [hno, if_neg Bool.false_ne_true]
    show n + 1 + (s.timer.dist - 1) = o + (16 * w + k) * period d
    omega

theorem filter_counts (hreset : filterreset s = false) (d : BitVec 16) (rx : Bool) :
    rxf (next d rx s) = (rxf s || decide (10 ≤ s.filter.count.toNat)) ∧
    (next d rx s).filter.count = if rxBr s && rx then s.filter.count + 1 else s.filter.count := by
  show (s.filter.next 10 rx (filterreset s) (rxBr s)).sout = _ ∧
    (s.filter.next 10 rx (filterreset s) (rxBr s)).count = _
  rw [hreset]
  exact ⟨rfl, rfl⟩

theorem filter_cleared (hreset : filterreset s = true) (d : BitVec 16) (rx : Bool) :
    rxf (next d rx s) = false ∧ (next d rx s).filter.count = 0 := by
  show (s.filter.next 10 rx (filterreset s) (rxBr s)).sout = _ ∧
    (s.filter.next 10 rx (filterreset s) (rxBr s)).count = _
  rw [hreset]
  exact ⟨rfl, rfl⟩

theorem toNat_count_succ {c : BitVec 4} (h : c.toNat < 15) : (c + 1).toNat = c.toNat + 1 := by
  rw [BitVec.toNat_add]
  exact Nat.mod_eq_of_lt (show c.toNat + 1 < 16 by omega)

theorem baudgen_next (hreset : s.baudreset = false) (d : BitVec 16) (rx : Bool) :
    (next d rx s).baudgen =
      if rxBr s then if s.baudgen.cnt = 0 then ⟨15, true⟩ else ⟨s.baudgen.cnt - 1, false⟩
      else ⟨s.baudgen.cnt, false⟩ := by
  show s.baudgen.next s.baudreset (rxBr s) 15 = _
  rw [hreset]
  rfl

theorem baudreset_eq_false (h : s.state ≠ .rxIdle) (d : BitVec 16) (rx : Bool) :
    (next d rx s).baudreset = false := by
  rw [baudreset_next]
  simp [h]

/-- What a clock makes of the filter's count for a high bit. -/
theorem Timed.high_step (h : Timed d true o w k n s) (hclear : filterreset s = false)
    (hrx : rxBr s = true → k ≤ 11 → rx = true) :
    rxf (next d rx s) = true ∧ 10 ≤ k + (rxBr s).toNat ∨
    rxf (next d rx s) = false ∧
      k + (rxBr s).toNat ≤ (next d rx s).filter.count.toNat + 1 ∧
      (next d rx s).filter.count.toNat ≤ k + (rxBr s).toNat ∧
      (next d rx s).filter.count.toNat ≤ 10 := by
  obtain ⟨hsout, hcount⟩ := filter_counts hclear d rx
  rw [hsout]
  rcases h.high rfl with ⟨hrxf, hten⟩ | ⟨hrxf, hcounted, hless, hmax⟩
  · left
    rw [hrxf]
    exact ⟨rfl, by omega⟩
  · by_cases hq : s.filter.count.toNat = 10
    · left
      rw [hq]
      exact ⟨Bool.or_true _, by omega⟩
    · right
      have hlow : decide (10 ≤ s.filter.count.toNat) = false := by
        rw [decide_eq_false_iff_not]
        omega
      rw [hrxf, hlow, hcount]
      cases hbr : rxBr s with
      | false =>
        simp only [Bool.false_and, Bool.false_eq_true, if_false, Bool.toNat_false]
        exact ⟨rfl, by omega, by omega, by omega⟩
      | true =>
        rw [hrx hbr (by omega)]
        simp only [Bool.and_self, if_true, Bool.toNat_true, toNat_count_succ (show
          s.filter.count.toNat < 15 by omega)]
        exact ⟨rfl, by omega, by omega, by omega⟩

/-- And for a low bit. -/
theorem Timed.low_step (h : Timed d false o w k n s) (hclear : filterreset s = false)
    (hrx : rxBr s = true → k ≤ 11 → rx = false) :
    rxf (next d rx s) = false ∧
      (next d rx s).filter.count.toNat ≤ k + (rxBr s).toNat - 12 := by
  obtain ⟨hsout, hcount⟩ := filter_counts hclear d rx
  obtain ⟨hrxf, hq⟩ := h.low rfl
  have hbound := h.bound
  have hlow : decide (10 ≤ s.filter.count.toNat) = false := by
    rw [decide_eq_false_iff_not]
    omega
  rw [hsout, hrxf, hlow, hcount]
  refine ⟨rfl, ?_⟩
  cases hbr : rxBr s with
  | false => simpa using hq
  | true =>
    by_cases hk : k ≤ 11
    · rw [hrx hbr hk]
      simp only [Bool.and_false, Bool.false_eq_true, if_false, Bool.toNat_true]
      omega
    · cases rx with
      | false =>
        simp only [Bool.and_false, Bool.false_eq_true, if_false, Bool.toNat_true]
        omega
      | true =>
        simp only [Bool.and_self, if_true, Bool.toNat_true, toNat_count_succ (show
          s.filter.count.toNat < 15 by omega)]
        omega

/-- A clock of a window that is not its last. -/
theorem Timed.step (h : Timed d v o w k n s) (hk : k < 16) (hstate : s.state ≠ .rxIdle)
    (hrx : rxBr s = true → k ≤ 11 → rx = v) :
    Timed d v o w (k + (rxBr s).toNat) (n + 1) (next d rx s) := by
  have hb : Receiver.baudtick s = false := by
    rw [h.baudtick, decide_eq_false_iff_not]
    omega
  have hclear : filterreset s = false := by
    rw [filterreset, h.baudreset, hb]
    rfl
  have hgen := baudgen_next h.baudreset d rx
  have hcnt := h.cnt
  rw [if_neg (by omega)] at hcnt
  -- the bit timer ticks with the sixteenth tick
  have hnext : Receiver.baudtick (next d rx s) = decide (k + (rxBr s).toNat = 16) ∧
      (next d rx s).baudgen.cnt = if k + (rxBr s).toNat = 16 then 15 else 15 - (k + (rxBr s).toNat)
      := by
    rw [Receiver.baudtick, hgen, hcnt]
    cases rxBr s with
    | false =>
      have hne : ¬ k + false.toNat = 16 := by
        rw [Bool.toNat_false]
        omega
      rw [if_neg hne, decide_eq_false hne]
      exact ⟨rfl, rfl⟩
    | true =>
      by_cases h15 : k = 15
      · subst h15
        exact ⟨rfl, rfl⟩
      · have hne : ¬ k + true.toNat = 16 := by
          rw [Bool.toNat_true]
          omega
        rw [if_pos rfl, if_neg (by omega), if_neg hne, decide_eq_false hne]
        exact ⟨rfl, Nat.sub_sub 15 k 1⟩
  have hle : (rxBr s).toNat ≤ 1 := Bool.toNat_le _
  refine ⟨h.timer.next, h.tick_next rx, by omega, baudreset_eq_false hstate d rx, hnext.1, hnext.2,
    ?_, ?_⟩
  · rintro rfl
    exact h.high_step hclear hrx
  · rintro rfl
    exact h.low_step hclear hrx

/-- The last clock of a window clears the filter for the next bit. -/
theorem Timed.turn (h : Timed d v o w 16 n s) (hstate : s.state ≠ .rxIdle) (rx v' : Bool) :
    Timed d v' o (w + 1) (rxBr s).toNat (n + 1) (next d rx s) := by
  have hb : Receiver.baudtick s = true := h.baudtick
  have hclear : filterreset s = true := by
    rw [filterreset, hb]
    exact Bool.or_true _
  obtain ⟨hrxf, hcount⟩ := filter_cleared hclear d rx
  have hgen := baudgen_next h.baudreset d rx
  have hcnt : s.baudgen.cnt = 15 := h.cnt
  have htick := h.tick_next rx
  rw [← Nat.add_assoc, ← Nat.mul_succ] at htick
  have hle : (rxBr s).toNat ≤ 1 := Bool.toNat_le _
  have hzero : (next d rx s).filter.count.toNat = 0 := by rw [hcount]; rfl
  have hnext : Receiver.baudtick (next d rx s) = false ∧
      (next d rx s).baudgen.cnt = 15 - (rxBr s).toNat := by
    rw [Receiver.baudtick, hgen, hcnt]
    cases rxBr s <;> exact ⟨rfl, rfl⟩
  refine ⟨h.timer.next, htick, by omega, baudreset_eq_false hstate d rx, ?_, ?_, ?_, ?_⟩
  · rw [hnext.1, eq_comm, decide_eq_false_iff_not]
    omega
  · rw [hnext.2, if_neg (by omega)]
  · intro _
    right
    rw [hzero]
    exact ⟨hrxf, by omega, by omega, by omega⟩
  · intro _
    rw [hzero]
    exact ⟨hrxf, Nat.zero_le _⟩

/-! ## The bits of a frame -/

/-- The state machine in window `w`: the bits before it are in the upper end of the shift
register. -/
def Stage (byte : BitVec 8) (w : Nat) (s : Receiver) : Prop :=
  if w = 0 then s.state = .rxStart
  else if w ≤ 8 then s.state = .rxData ∧ s.datacount.toNat + w = 8 ∧
    ∀ j, j + 1 < w → s.rxd.getLsbD (9 - w + j) = byte.getLsbD j
  else s.state = .rxEnd ∧ s.rxd = byte

theorem Stage.state_ne (h : Stage byte w s) : s.state ≠ .rxIdle := by
  unfold Stage at h
  split_ifs at h
  · rw [h]
    decide
  · rw [h.1]
    decide
  · rw [h.1]
    decide

theorem Stage.state_ne_end (h : Stage byte w s) (hw : w ≤ 8) : s.state ≠ .rxEnd := by
  unfold Stage at h
  rw [if_pos hw] at h
  split_ifs at h
  · rw [h]
    decide
  · rw [h.1]
    decide

theorem Stage.data (h : Stage byte w s) (h0 : w ≠ 0) (hw : w ≤ 8) : s.state = .rxData ∧
    s.datacount.toNat + w = 8 ∧
    ∀ j, j + 1 < w → s.rxd.getLsbD (9 - w + j) = byte.getLsbD j := by
  unfold Stage at h
  rwa [if_neg h0, if_pos hw] at h

theorem Stage.stop (h : Stage byte 9 s) : s.state = .rxEnd ∧ s.rxd = byte := h

/-- The state machine waits for the end of the window. -/
theorem Stage.waits (h : Stage byte w s) (hb : baudtick s = false) (hw : w ≤ 8) (d : BitVec 16)
    (rx : Bool) : Stage byte w (next d rx s) := by
  unfold Stage
  by_cases h0 : w = 0
  · subst h0
    rw [if_pos rfl, state_next_start d rx h, hb]
    rfl
  · rw [if_neg h0, if_pos hw]
    obtain ⟨hstate, hcount, hbits⟩ := h.data h0 hw
    obtain ⟨hstate', hcount', hrxd'⟩ := next_data_waits d rx hstate hb
    rw [hcount', hrxd']
    exact ⟨hstate', hcount, hbits⟩

theorem Stage.stop_waits (h : Stage byte 9 s) (hb : baudtick s = false) (hf : rxf s = false)
    (d : BitVec 16) (rx : Bool) : Stage byte 9 (next d rx s) := by
  obtain ⟨hstate, hrxd⟩ := h.stop
  refine ⟨?_, ?_⟩
  · rw [state_next_end d rx hstate, hb, hf]
    rfl
  · rw [rxd_next d rx (by rw [hstate]; decide)]
    exact hrxd

theorem shifted_getLsbD (b : Bool) (x : BitVec 8) (i : Nat) :
    (BitVec.ofBool b ++ x.extractLsb 7 1 : BitVec 8).getLsbD i =
      if i < 7 then x.getLsbD (i + 1) else if i = 7 then b else false := by
  rw [BitVec.getLsbD_append, BitVec.getLsbD_extractLsb, BitVec.getLsbD_ofBool]
  by_cases h : i < 7
  · simp [h, Nat.add_comm]
  · by_cases h7 : i = 7
    · simp [h7]
    · simp [h, h7, show ¬ i - 7 = 0 by omega]

/-- The end of a window, at which the filter shows its bit. -/
theorem Stage.turns (h : Stage byte w s) (hb : baudtick s = true) (hf : rxf s = frameBit byte w)
    (hw : w ≤ 8) (d : BitVec 16) (rx : Bool) : Stage byte (w + 1) (next d rx s) := by
  by_cases h0 : w = 0
  · subst h0
    have hlow : rxf s = false := hf
    unfold Stage
    rw [if_neg (by decide), if_pos (by decide), state_next_start d rx h,
      datacount_next_start d rx h hb hlow, hb, hlow]
    exact ⟨rfl, rfl, fun j hj => by omega⟩
  · obtain ⟨hstate, hcount, hbits⟩ := h.data h0 hw
    obtain ⟨hstate', hcount', hrxd'⟩ := next_data d rx hstate hb
    have hbit : rxf s = byte.getLsbD (w - 1) := by
      rw [hf, frameBit, if_neg h0, if_pos hw]
    -- the bits so far and the new one
    have hshift : ∀ j, j < w → (next d rx s).rxd.getLsbD (8 - w + j) = byte.getLsbD j := by
      intro j hj
      rw [hrxd', shifted_getLsbD]
      by_cases hlast : j + 1 = w
      · rw [if_neg (by omega), if_pos (by omega), hbit]
        congr 1
        omega
      · rw [if_pos (by omega), ← hbits j (by omega)]
        congr 1
        omega
    unfold Stage
    rw [if_neg (Nat.succ_ne_zero w)]
    by_cases h8 : w = 8
    · subst h8
      have hzero : s.datacount = 0 := BitVec.eq_of_toNat_eq (by simpa using hcount)
      rw [if_neg (by decide), hstate', if_pos hzero]
      refine ⟨rfl, ?_⟩
      apply BitVec.eq_of_getLsbD_eq
      intro j hj
      simpa using hshift j hj
    · have hne : s.datacount ≠ 0 := by
        intro hzero
        rw [hzero] at hcount
        exact h8 (by simpa using hcount)
      rw [if_pos (by omega), hstate', if_neg hne, hcount']
      refine ⟨rfl, ?_, fun j hj => ?_⟩
      · have hpos : s.datacount.toNat ≠ 0 := fun hc => hne (BitVec.eq_of_toNat_eq hc)
        bv_omega
      · rw [show 9 - (w + 1) = 8 - w by omega]
        exact hshift j (by omega)

/-! ## Between frames -/

/-- The receiver is idle, and the bit timer runs freely.  When it ticks, the filter has seen at
least ten ticks of a high line: a tick in the clock after a start edge then looks like a glitch on
the line, and the start edge is found again. -/
structure Armed (d : BitVec 16) (s : Receiver) : Prop where
  timer : s.timer.Counts d.toNat
  state : s.state = .rxIdle
  baudreset : s.baudreset = false
  cnt : s.baudgen.cnt ≤ 15
  reloaded : baudtick s = true → s.baudgen.cnt = 15
  charged : baudtick s = false → rxf s = true ∨
    14 ≤ s.filter.count.toNat + s.baudgen.cnt ∧ s.filter.count.toNat ≤ 10

theorem idle_stays (h : s.state = .rxIdle) (d : BitVec 16) :
    (next d true s).state = .rxIdle ∧ (next d true s).baudreset = false := by
  rw [state_next_idle d true h, baudreset_next]
  exact ⟨rfl, by simp⟩

theorem filterreset_of (hreset : s.baudreset = false) (hb : baudtick s = false) :
    filterreset s = false := by
  rw [filterreset, hreset, hb]
  rfl

/-- A clock of a high line. -/
theorem Armed.step (h : Armed d s) : Armed d (next d true s) := by
  obtain ⟨hstate, hreset⟩ := idle_stays h.state d
  have hgen := baudgen_next h.baudreset d true
  have hcnt := h.cnt
  cases hb : baudtick s with
  | true =>
    -- the filter starts from nothing
    have hclear : filterreset s = true := by
      rw [filterreset, hb]
      exact Bool.or_true _
    obtain ⟨-, hcount⟩ := filter_cleared hclear d true
    rw [h.reloaded hb] at hgen
    have hnext : Receiver.baudtick (next d true s) = false ∧
        14 ≤ (next d true s).baudgen.cnt ∧ (next d true s).baudgen.cnt ≤ 15 := by
      rw [Receiver.baudtick, hgen]
      cases rxBr s
      · exact ⟨rfl, by decide, by decide⟩
      · exact ⟨rfl, by decide, by decide⟩
    refine ⟨h.timer.next, hstate, hreset, hnext.2.2, fun hc => ?_, fun _ => .inr ⟨?_, ?_⟩⟩
    · rw [hnext.1] at hc
      cases hc
    · omega
    · rw [hcount]
      decide
  | false =>
    obtain ⟨hsout, hcount⟩ := filter_counts (filterreset_of h.baudreset hb) d true
    by_cases hfull : rxBr s = true ∧ s.baudgen.cnt = 0
    · rw [hfull.1, hfull.2] at hgen
      refine ⟨h.timer.next, hstate, hreset, by rw [hgen]; decide, fun _ => by rw [hgen]; rfl,
        fun hc => ?_⟩
      rw [Receiver.baudtick, hgen] at hc
      cases hc
    · have hnext : Receiver.baudtick (next d true s) = false ∧
          (next d true s).baudgen.cnt + (rxBr s).toNat = s.baudgen.cnt := by
        rw [Receiver.baudtick, hgen]
        cases hbr : rxBr s with
        | false => exact ⟨rfl, rfl⟩
        | true =>
          have hne : s.baudgen.cnt ≠ 0 := fun hc => hfull ⟨hbr, hc⟩
          rw [if_pos rfl, if_neg hne]
          exact ⟨rfl, Nat.sub_add_cancel (Nat.pos_of_ne_zero hne)⟩
      refine ⟨h.timer.next, hstate, hreset, by omega, fun hc => ?_, fun _ => ?_⟩
      · rw [hnext.1] at hc
        cases hc
      · rw [hsout]
        rcases h.charged hb with hrxf | ⟨hsum, hmax⟩
        · left
          rw [hrxf]
          rfl
        · by_cases hq : s.filter.count.toNat = 10
          · left
            rw [hq]
            exact Bool.or_true _
          · right
            have hcount' : (next d true s).filter.count.toNat =
                s.filter.count.toNat + (rxBr s).toNat := by
              rw [hcount]
              cases rxBr s with
              | false => rfl
              | true => exact toNat_count_succ (by omega)
            have hle : (rxBr s).toNat ≤ 1 := Bool.toNat_le _
            omega

structure Ready (d : BitVec 16) (s : Receiver) : Prop where
  timer : s.timer.Counts d.toNat
  state : s.state = .rxIdle
  baudreset : s.baudreset = false
  glitch : baudtick (next d false s) = true → rxf (next d false s) = true

theorem Armed.ready (h : Armed d s) : Ready d s := by
  refine ⟨h.timer, h.state, h.baudreset, fun htick => ?_⟩
  have hgen := baudgen_next h.baudreset d false
  have hfull : s.baudgen.cnt = 0 := by
    by_contra hne
    rw [baudtick, hgen, if_neg hne] at htick
    cases hbr : rxBr s <;> rw [hbr] at htick <;> cases htick
  have hb : baudtick s = false := by
    cases hb : baudtick s with
    | false => rfl
    | true =>
      have := h.reloaded hb
      omega
  rcases h.charged hb with hrxf | hq
  · rw [(filter_counts (filterreset_of h.baudreset hb) d false).1, hrxf]
    rfl
  · omega

/-- The receiver has the last stop bit but is not idle yet. -/
structure Late (d : BitVec 16) (byte : BitVec 8) (s : Receiver) : Prop where
  timer : s.timer.Counts d.toNat
  state : s.state = .rxEnd
  rxd : s.rxd = byte
  rxf : rxf s = true
  baudreset : s.baudreset = false
  baudtick : baudtick s = false
  cnt : 2 ≤ s.baudgen.cnt ∧ s.baudgen.cnt ≤ 15

theorem Late.completes (h : Late d byte s) : completes s = some byte := by
  rw [Receiver.completes, if_pos ⟨h.state, h.rxf⟩, h.rxd]

theorem Late.step (h : Late d byte s) (rx : Bool) :
    Armed d (next d rx s) ∧ (next d rx s).baudgen.cnt ≠ 0 := by
  have hgen := baudgen_next h.baudreset d rx
  have hcnt := h.cnt
  have hnext : Receiver.baudtick (next d rx s) = false ∧
      1 ≤ (next d rx s).baudgen.cnt ∧ (next d rx s).baudgen.cnt ≤ 15 := by
    rw [Receiver.baudtick, hgen, if_neg (show ¬ s.baudgen.cnt = 0 by omega)]
    cases rxBr s
    · exact ⟨rfl, show 1 ≤ s.baudgen.cnt by omega, hcnt.2⟩
    · exact ⟨rfl, show 1 ≤ s.baudgen.cnt - 1 by omega, show s.baudgen.cnt - 1 ≤ 15 by omega⟩
  refine ⟨⟨h.timer.next, ?_, ?_, hnext.2.2, fun hc => ?_, fun _ => .inl ?_⟩, by omega⟩
  · rw [state_next_end d rx h.state, h.rxf]
    rfl
  · exact baudreset_eq_false (by rw [h.state]; decide) d rx
  · rw [hnext.1] at hc
    cases hc
  · rw [(filter_counts (filterreset_of h.baudreset h.baudtick) d rx).1, h.rxf]
    rfl

/-! ## The start edge -/

structure Window (d : BitVec 16) (byte : BitVec 8) (o w k n : Nat) (s : Receiver) : Prop where
  timed : Timed d (frameBit byte w) o w k n s
  stage : Stage byte w s

theorem baudgen_reset (hreset : s.baudreset = true) (d : BitVec 16) (rx : Bool) :
    (next d rx s).baudgen = ⟨15, false⟩ := by
  show s.baudgen.next s.baudreset (rxBr s) 15 = _
  rw [hreset]
  rfl

theorem baudtick_next_eq_false (hreset : s.baudreset = false) (hcnt : s.baudgen.cnt ≠ 0)
    (d : BitVec 16) (rx : Bool) : baudtick (next d rx s) = false := by
  rw [baudtick, baudgen_next hreset, if_neg hcnt]
  cases rxBr s <;> rfl

/-- A start edge that the bit timer does not disturb. -/
theorem edge (htimer : s.timer.Counts d.toNat) (hstate : s.state = .rxIdle)
    (hno : baudtick (next d false s) = false) (byte : BitVec 8) (rx : Bool) (n : Nat) :
    ∃ o < n + 3 + d.toNat, Window d byte o 0 0 (n + 2) (next d rx (next d false s)) := by
  have hstart : (next d false s).state = .rxStart := state_next_idle d false hstate
  have hreset : (next d false s).baudreset = true := by
    rw [baudreset_next, hstate]
    rfl
  have hclear : filterreset (next d false s) = true := by
    rw [filterreset, hreset]
    rfl
  obtain ⟨hrxf, hcount⟩ := filter_cleared hclear d rx
  have hgen := baudgen_reset hreset d rx
  have hdist : (next d rx (next d false s)).timer.dist ≤ d.toNat := htimer.next.dist_next_le
  refine ⟨n + 2 + (next d rx (next d false s)).timer.dist, by omega, ⟨?_, ?_⟩⟩
  · refine ⟨htimer.next.next, by simp, by omega, ?_, ?_, by rw [hgen]; rfl, fun hv => ?_,
      fun _ => ⟨hrxf, by rw [hcount]; decide⟩⟩
    · exact baudreset_eq_false (by rw [hstart]; decide) d rx
    · rw [baudtick, hgen]
      rfl
    · cases hv
  · show (next d rx (next d false s)).state = .rxStart
    rw [state_next_start d rx hstart, hno]
    rfl

/-- A start edge that looks like a glitch is found again two clocks later. -/
theorem Ready.again (h : Ready d s) (htick : baudtick (next d false s) = true) (rx : Bool) :
    (next d rx (next d false s)).timer.Counts d.toNat ∧
    (next d rx (next d false s)).state = .rxIdle ∧
    baudtick (next d false (next d rx (next d false s))) = false := by
  have hstart : (next d false s).state = .rxStart := state_next_idle d false h.state
  have hreset : (next d false s).baudreset = true := by
    rw [baudreset_next, h.state]
    rfl
  have hgen := baudgen_reset hreset d rx
  refine ⟨h.timer.next.next, ?_, ?_⟩
  · rw [state_next_start d rx hstart, htick, h.glitch htick]
    rfl
  · apply baudtick_next_eq_false
    · exact baudreset_eq_false (by rw [hstart]; decide) d rx
    · rw [hgen]
      decide

/-- What the receiver may be in when a frame begins, with the byte that it has not given yet. -/
inductive Opening (d : BitVec 16) : List (BitVec 8) → Receiver → Prop
  | ready {s : Receiver} : Ready d s → Opening d [] s
  | late {byte : BitVec 8} {s : Receiver} : Late d byte s → Opening d [byte] s

section Runs

variable (d s) (line : Nat → Bool)

def after (n : Nat) : Receiver := Run.states (next d) s line n

/-- The bytes that the stop bits complete in `m` clocks from clock `n` on. -/
def completed (n m : Nat) : List (BitVec 8) :=
  Run.events (fun k => completes (after d s line k)) n m

variable {d s line}

theorem after_succ (n : Nat) : after d s line (n + 1) = next d (line n) (after d s line n) := rfl

theorem completed_skip (h : (after d s line n).state ≠ .rxEnd) (m : Nat) :
    completed d s line n (m + 1) = completed d s line (n + 1) m := by
  rw [completed, Run.events_cons, completes_eq_none h]
  rfl

/-- Every frame is found within four clocks. -/
theorem Opening.opens {p : List (BitVec 8)} (h : Opening d p s) (byte : BitVec 8)
    (hlow : ∀ k ≤ 2, line k = false) : ∃ t o, t ≤ 4 ∧ o < 5 * period d ∧
      Window d byte o 0 0 t (after d s line t) ∧ completed d s line 0 t = p := by
  have h0 : after d s line 1 = next d false s := by
    rw [after_succ, hlow 0 (by omega)]
    rfl
  have h1 : after d s line 2 = next d false (after d s line 1) := by
    rw [after_succ, hlow 1 (by omega)]
  have h2 : after d s line 3 = next d false (after d s line 2) := by
    rw [after_succ, hlow 2 (by omega)]
  have hstart : ∀ {k : Nat}, (after d s line k).state = .rxIdle → k ≤ 2 →
      (after d s line (k + 1)).state = .rxStart := by
    intro k hidle hk
    rw [after_succ, hlow k hk]
    exact state_next_idle d false hidle
  cases h with
  | ready h =>
    have hidle : (after d s line 0).state = .rxIdle := h.state
    cases htick : baudtick (next d false s) with
    | false =>
      obtain ⟨o, ho, hwindow⟩ := edge h.timer h.state htick byte false 0
      rw [← h0, ← h1] at hwindow
      refine ⟨2, o, by omega, by rw [period]; omega, hwindow, ?_⟩
      rw [completed_skip (by rw [hidle]; decide),
        completed_skip (by rw [hstart hidle (by omega)]; decide)]
      rfl
    | true =>
      obtain ⟨htimer, hstate, hno⟩ := h.again htick false
      rw [← h0, ← h1] at htimer hstate hno
      obtain ⟨o, ho, hwindow⟩ := edge htimer hstate hno byte (line 3) 2
      rw [← h2, ← after_succ] at hwindow
      refine ⟨4, o, by omega, by rw [period]; omega, hwindow, ?_⟩
      rw [completed_skip (by rw [hidle]; decide),
        completed_skip (by rw [hstart hidle (by omega)]; decide),
        completed_skip (by rw [hstate]; decide),
        completed_skip (by rw [hstart hstate (by omega)]; decide)]
      rfl
  | late h =>
    obtain ⟨harmed, hcnt⟩ := h.step false
    rw [← h0] at harmed hcnt
    obtain ⟨o, ho, hwindow⟩ := edge harmed.timer harmed.state
      (baudtick_next_eq_false harmed.baudreset hcnt d false) byte false 1
    rw [← h1, ← h2] at hwindow
    refine ⟨3, o, by omega, by rw [period]; omega, hwindow, ?_⟩
    have hfirst : completes (after d s line 0) = some _ := h.completes
    rw [completed, Run.events_cons, hfirst, ← completed,
      completed_skip (by rw [harmed.state]; decide),
      completed_skip (by rw [hstart harmed.state (by omega)]; decide)]
    rfl

/-! ## A frame -/

/-- A tick in the first twelve of its window lies in the bit the window is for. -/
theorem div_bit (ho : o < 5 * period d) (hk : k ≤ 11)
    (hn : n = o + (16 * w + k) * period d) : n / (16 * period d) = w := by
  have hk' : k * period d ≤ 11 * period d := Nat.mul_le_mul_right _ hk
  have hsum : (16 * w + k) * period d = 16 * period d * w + k * period d := by ring
  have hlt : n < 16 * period d * (w + 1) := by
    rw [Nat.mul_succ]
    omega
  rw [Nat.div_eq_of_lt_le]
  · rw [Nat.mul_comm]
    omega
  · rw [Nat.mul_comm]
    exact hlt

theorem Window.sample (h : Window d byte o w k n s) (ho : o < 5 * period d)
    (hrx : rx = frameBit byte (n / (16 * period d))) :
    rxBr s = true → k ≤ 11 → rx = frameBit byte w := by
  intro hbr hk
  have htick := h.timed.tick
  rw [Brgen.dist_tick hbr, Nat.add_zero] at htick
  rw [hrx, div_bit ho hk htick]

/-- The receiver in clock `n` of a frame, with the byte it has not given yet. -/
inductive Progress (d : BitVec 16) (byte : BitVec 8) (o : Nat) :
    Nat → List (BitVec 8) → Receiver → Prop
  | window {w k n : Nat} {s : Receiver} : w ≤ 8 → Window d byte o w k n s →
      Progress d byte o n [byte] s
  | stop {k n : Nat} {s : Receiver} : Window d byte o 9 k n s → k ≤ 12 →
      Progress d byte o n [byte] s
  | given {n : Nat} {s : Receiver} : Armed d s → 144 * period d ≤ n → Progress d byte o n [] s

theorem Window.step (h : Window d byte o w k n s) (hw : w ≤ 8) (ho : o < 5 * period d)
    (hrx : rx = frameBit byte (n / (16 * period d))) :
    Progress d byte o (n + 1) [byte] (next d rx s) := by
  by_cases hk : k = 16
  · subst hk
    have hb : baudtick s = true := h.timed.baudtick
    have hstage := h.stage.turns hb h.timed.rxf_eq hw d rx
    have htimed := h.timed.turn h.stage.state_ne rx (frameBit byte (w + 1))
    by_cases h8 : w = 8
    · subst h8
      have hle : (rxBr s).toNat ≤ 1 := Bool.toNat_le _
      exact .stop ⟨htimed, hstage⟩ (by omega)
    · exact .window (show w + 1 ≤ 8 by omega) ⟨htimed, hstage⟩
  · have hbound := h.timed.bound
    have hb : baudtick s = false := by
      rw [h.timed.baudtick, decide_eq_false hk]
    have htimed := h.timed.step (by omega) h.stage.state_ne (h.sample ho hrx)
    exact .window hw ⟨htimed, h.stage.waits hb hw d rx⟩

theorem Window.stop_step (h : Window d byte o 9 k n s) (hrxf : rxf s = false)
    (ho : o < 5 * period d) (hrx : rx = frameBit byte (n / (16 * period d))) :
    Progress d byte o (n + 1) [byte] (next d rx s) := by
  rcases h.timed.high rfl with ⟨htrue, -⟩ | ⟨-, hcounted, -, hmax⟩
  · rw [hrxf] at htrue
    cases htrue
  · have hb : baudtick s = false := by
      rw [h.timed.baudtick, decide_eq_false_iff_not]
      omega
    have htimed := h.timed.step (by omega) h.stage.state_ne (h.sample ho hrx)
    have hle : (rxBr s).toNat ≤ 1 := Bool.toNat_le _
    exact .stop ⟨htimed, h.stage.stop_waits hb hrxf d rx⟩ (by omega)

/-- The filter shows the stop bit. -/
theorem Window.late (h : Window d byte o 9 k n s) (hk : k ≤ 12) (hrxf : rxf s = true) :
    Late d byte s := by
  have hcnt := h.timed.cnt
  rw [if_neg (by omega)] at hcnt
  refine ⟨h.timed.timer, h.stage.stop.1, h.stage.stop.2, hrxf, h.timed.baudreset, ?_, by omega⟩
  rw [h.timed.baudtick, decide_eq_false_iff_not]
  omega

theorem Window.stop_time (h : Window d byte o 9 k n s) (hrxf : rxf s = true) :
    144 * period d ≤ n := by
  rcases h.timed.high rfl with ⟨-, hten⟩ | ⟨hfalse, -⟩
  · have htick := h.timed.tick
    have hdist : s.timer.dist ≤ period d := h.timed.timer.dist_le
    have hk : (16 * 9 + 10) * period d ≤ (16 * 9 + k) * period d :=
      Nat.mul_le_mul_right _ (by omega)
    omega
  · rw [hrxf] at hfalse
    cases hfalse

/-- A clock of a frame. -/
theorem Progress.step {p : List (BitVec 8)} (h : Progress d byte o n p s) (ho : o < 5 * period d)
    (hn : n < 160 * period d) (hrx : rx = frameBit byte (n / (16 * period d))) :
    ∃ p', Progress d byte o (n + 1) p' (next d rx s) ∧ p = (completes s).toList ++ p' := by
  cases h with
  | window hw h =>
    refine ⟨_, h.step hw ho hrx, ?_⟩
    rw [completes_eq_none (h.stage.state_ne_end hw)]
    rfl
  | stop h hk =>
    cases hrxf : rxf s with
    | false =>
      refine ⟨_, h.stop_step hrxf ho hrx, ?_⟩
      have hnone : completes s = none := if_neg fun hc => by
        rw [hrxf] at hc
        cases hc.2
      rw [hnone]
      rfl
    | true =>
      have hlate := h.late hk hrxf
      have htime := h.stop_time hrxf
      refine ⟨[], .given (hlate.step rx).1 (by omega), ?_⟩
      rw [hlate.completes]
      rfl
  | given h htime =>
    have hstop : n / (16 * period d) = 9 := by
      rw [Nat.div_eq_of_lt_le]
      · omega
      · omega
    have hhigh : rx = true := by
      rw [hrx, hstop]
      rfl
    refine ⟨[], .given (hhigh ▸ h.step) (by omega), ?_⟩
    rw [completes_eq_none (by rw [h.state]; decide)]
    rfl

inductive Rests (d : BitVec 16) : List (BitVec 8) → Receiver → Prop
  | armed {s : Receiver} : Armed d s → Rests d [] s
  | late {byte : BitVec 8} {s : Receiver} : Late d byte s → Rests d [byte] s

/-- When the frame is over, the receiver has its byte. -/
theorem Progress.rests {p : List (BitVec 8)} (h : Progress d byte o n p s) (ho : o < 5 * period d)
    (hn : n = 160 * period d) : Rests d p s := by
  have hpos := period_pos d
  cases h with
  | @window w k _ _ hw h =>
    have htick := h.timed.tick
    have hlast : (16 * w + k) * period d ≤ (16 * 8 + 16) * period d :=
      Nat.mul_le_mul_right _ (by have := h.timed.bound; omega)
    omega
  | @stop k _ _ h hk =>
    cases hrxf : rxf s with
    | true => exact .late (h.late hk hrxf)
    | false =>
      rcases h.timed.high rfl with ⟨htrue, -⟩ | ⟨-, hcounted, -, hmax⟩
      · rw [hrxf] at htrue
        cases htrue
      · have htick := h.timed.tick
        have hlast : (16 * 9 + k) * period d ≤ (16 * 9 + 11) * period d :=
          Nat.mul_le_mul_right _ (by omega)
        omega
  | given h _ => exact .armed h

theorem Rests.opening {p : List (BitVec 8)} (h : Rests d p s) : Opening d p s := by
  cases h with
  | armed h => exact .ready h.ready
  | late h => exact .late h

/-- A clock of a high line. -/
theorem Rests.step {p : List (BitVec 8)} (h : Rests d p s) :
    Armed d (next d true s) ∧ p = (completes s).toList := by
  cases h with
  | armed h =>
    rw [completes_eq_none (by rw [h.state]; decide)]
    exact ⟨h.step, rfl⟩
  | late h =>
    rw [h.completes]
    exact ⟨(h.step true).1, rfl⟩

variable (line) in
theorem Rests.run {p : List (BitVec 8)} (h : Rests d p s) {m : Nat}
    (hhigh : ∀ k < m, line k = true) :
    ∃ p', Rests d p' (after d s line m) ∧ p = completed d s line 0 m ++ p' := by
  have hrun := Run.drains (n := 0) (d := m) (fun k => completes (after d s line k))
    (fun k p => Rests d p (after d s line k)) h fun k _ hk p hp => by
      obtain ⟨harmed, hout⟩ := hp.step
      refine ⟨[], ?_, by rw [← hout, List.append_nil]⟩
      rw [after_succ, hhigh k (by omega)]
      exact .armed harmed
  rwa [Nat.zero_add] at hrun

variable (line) in
/-- A whole frame. -/
theorem Opening.run {p : List (BitVec 8)} (h : Opening d p s)
    (hline : ∀ k < 160 * period d, line k = frameBit byte (k / (16 * period d))) :
    ∃ p', Rests d p' (after d s line (160 * period d)) ∧
      p ++ [byte] = completed d s line 0 (160 * period d) ++ p' := by
  have hpos := period_pos d
  have hlow : ∀ k ≤ 2, line k = false := by
    intro k hk
    rw [hline k (by omega), Nat.div_eq_of_lt (by omega)]
    rfl
  obtain ⟨t, o, ht, ho, hwindow, hout⟩ := h.opens byte hlow
  obtain ⟨p', hp', hsum⟩ := Run.drains (n := t) (d := 160 * period d - t)
    (fun k => completes (after d s line k))
    (fun k p => Progress d byte o k p (after d s line k)) (.window (by omega) hwindow)
    fun k _ hk p hp => hp.step ho (by omega) (hline k (by omega))
  have hend : t + (160 * period d - t) = 160 * period d := by omega
  rw [hend] at hp'
  refine ⟨p', hp'.rests ho rfl, ?_⟩
  have hsplit : completed d s line 0 (160 * period d) =
      completed d s line 0 t ++ completed d s line t (160 * period d - t) := by
    rw [completed, ← hend, Run.events_add, Nat.zero_add, hend]
    rfl
  rw [hsplit, hout, List.append_assoc, hsum]
  rfl

/-! ## A line of frames -/

/-- The line that carries the bytes, each behind the idle time given for it; it is idle when they
have been sent. -/
def lineOf (d : BitVec 16) : List (Nat × BitVec 8) → Nat → Bool
  | [], _ => true
  | (gap, byte) :: rest, n =>
    if n < gap then true
    else if n < gap + 160 * period d then frameBit byte ((n - gap) / (16 * period d))
    else lineOf d rest (n - (gap + 160 * period d))

def duration (d : BitVec 16) : List (Nat × BitVec 8) → Nat
  | [] => 0
  | (gap, _) :: rest => gap + 160 * period d + duration d rest

theorem lineOf_gap {gap : Nat} {rest : List (Nat × BitVec 8)} (hn : n < gap) :
    lineOf d ((gap, byte) :: rest) n = true := by
  rw [lineOf, if_pos hn]

theorem lineOf_frame (gap : Nat) (byte : BitVec 8) (rest : List (Nat × BitVec 8))
    (hn : n < 160 * period d) :
    lineOf d ((gap, byte) :: rest) (gap + n) = frameBit byte (n / (16 * period d)) := by
  rw [lineOf, if_neg (by omega), if_pos (by omega), Nat.add_sub_cancel_left]

theorem lineOf_rest (gap : Nat) (byte : BitVec 8) (rest : List (Nat × BitVec 8)) (n : Nat) :
    lineOf d ((gap, byte) :: rest) (gap + 160 * period d + n) = lineOf d rest n := by
  rw [lineOf, if_neg (by omega), if_neg (by omega), Nat.add_sub_cancel_left]

theorem lineOf_end (frames : List (Nat × BitVec 8)) (n : Nat) :
    lineOf d frames (duration d frames + n) = true := by
  induction frames with
  | nil => rfl
  | cons frame rest ih => rw [duration, Nat.add_assoc, lineOf_rest, ih]

theorem after_add (m n : Nat) : after d s line (m + n) =
    after d (after d s line m) (fun k => line (m + k)) n := Run.states_add (next d) s line m n

theorem completed_add (m n : Nat) : completed d s line 0 (m + n) = completed d s line 0 m ++
    completed d (after d s line m) (fun k => line (m + k)) 0 n := by
  rw [completed, Run.events_add, Nat.zero_add]
  exact congrArg (_ ++ ·) (Run.events_states (next d) s line completes m n)

/-- In `m` clocks the receiver completes what it had not given yet and `bytes`, but for what it has
not given then. -/
def Receives (d : BitVec 16) (p : List (BitVec 8)) (s : Receiver) (line : Nat → Bool) (m : Nat)
    (bytes : List (BitVec 8)) : Prop :=
  ∃ p', Rests d p' (after d s line m) ∧ p ++ bytes = completed d s line 0 m ++ p'

theorem Receives.after_stretch {p p₁ bytes₁ bytes : List (BitVec 8)} {m : Nat}
    (hsum : p ++ bytes₁ = completed d s line 0 m ++ p₁)
    (h : Receives d p₁ (after d s line m) (fun k => line (m + k)) n bytes) :
    Receives d p s line (m + n) (bytes₁ ++ bytes) := by
  obtain ⟨p', hp', hsum'⟩ := h
  refine ⟨p', by rw [after_add]; exact hp', ?_⟩
  rw [completed_add, ← List.append_assoc, hsum, List.append_assoc, hsum', List.append_assoc]

/-- A frame and the frames behind it. -/
theorem Opening.receives {p : List (BitVec 8)} (h : Opening d p s) {gap : Nat} {byte : BitVec 8}
    {rest : List (Nat × BitVec 8)}
    (hrest : ∀ {p : List (BitVec 8)} {s : Receiver}, Rests d p s →
      Receives d p s (lineOf d rest) (duration d rest) (rest.map Prod.snd)) :
    Receives d p s (fun k => lineOf d ((gap, byte) :: rest) (gap + k))
      (160 * period d + duration d rest) ([byte] ++ rest.map Prod.snd) := by
  obtain ⟨p', hp', hsum⟩ := h.run (fun k => lineOf d ((gap, byte) :: rest) (gap + k))
    fun k hk => lineOf_frame gap byte rest hk
  apply Receives.after_stretch hsum
  have hline : (fun k => lineOf d ((gap, byte) :: rest) (gap + (160 * period d + k))) =
      lineOf d rest := by
    funext k
    rw [← Nat.add_assoc, lineOf_rest]
  rw [hline]
  exact hrest hp'

/-- The frames behind a state between frames. -/
theorem Rests.receives {p : List (BitVec 8)} (h : Rests d p s) (frames : List (Nat × BitVec 8)) :
    Receives d p s (lineOf d frames) (duration d frames) (frames.map Prod.snd) := by
  induction frames generalizing p s with
  | nil => exact ⟨p, h, by simp [duration, completed]⟩
  | cons frame rest ih =>
    obtain ⟨gap, byte⟩ := frame
    obtain ⟨p₁, h₁, hsum⟩ := h.run (m := gap) (lineOf d ((gap, byte) :: rest))
      fun k hk => lineOf_gap hk
    rw [duration, Nat.add_assoc]
    rw [← List.append_nil p] at hsum
    exact Receives.after_stretch hsum (h₁.opening.receives ih)

/-! ### From reset on -/

/-- An idle receiver on a high line, whatever its filter and its bit timer are in. -/
structure Resting (d : BitVec 16) (s : Receiver) : Prop where
  timer : s.timer.Counts d.toNat
  state : s.state = .rxIdle
  baudreset : s.baudreset = false

theorem Reset.resting (h : Reset d s) : Resting d s := by
  refine ⟨⟨h.timer, fun hc => ?_⟩, h.state, h.baudreset⟩
  rw [h.tick] at hc
  cases hc

variable (line) in
theorem Resting.run (h : Resting d s) {m : Nat} (hhigh : ∀ k < m, line k = true) :
    Resting d (after d s line m) ∧ completed d s line 0 m = [] := by
  induction m with
  | zero => exact ⟨h, rfl⟩
  | succ m ih =>
    obtain ⟨hm, hout⟩ := ih fun k hk => hhigh k (by omega)
    rw [completed, Run.events_succ, ← completed, hout, after_succ, hhigh m (by omega)]
    obtain ⟨hstate, hreset⟩ := idle_stays hm.state d
    refine ⟨⟨hm.timer.next, hstate, hreset⟩, ?_⟩
    rw [Nat.zero_add, completes_eq_none (by rw [hm.state]; decide)]
    rfl

/-- In the clock after the first start edge the bit timer does not tick, or the filter has seen a
high line. -/
def FirstEdge (d : BitVec 16) (s : Receiver) (frames : List (Nat × BitVec 8)) : Prop :=
  ∀ gap ∈ (frames.map Prod.fst).head?,
    baudtick (after d s (lineOf d frames) (gap + 1)) = true →
      rxf (after d s (lineOf d frames) (gap + 1)) = true

/-- A clock after the last stop bit the receiver is idle, and it has completed the bytes. -/
theorem Reset.completed_frames (hs : Reset d s) {frames : List (Nat × BitVec 8)}
    (hfirst : FirstEdge d s frames) :
    Resting d (after d s (lineOf d frames) (duration d frames + 1)) ∧
    completed d s (lineOf d frames) 0 (duration d frames + 1) = frames.map Prod.snd := by
  cases frames with
  | nil => exact hs.resting.run _ fun k _ => rfl
  | cons frame rest =>
    obtain ⟨gap, byte⟩ := frame
    obtain ⟨hrest, hout⟩ := hs.resting.run (m := gap) (lineOf d ((gap, byte) :: rest))
      fun k hk => lineOf_gap hk
    have hedge : lineOf d ((gap, byte) :: rest) gap = false := by
      have hpos := period_pos d
      have hframe := lineOf_frame (d := d) (n := 0) gap byte rest (by omega)
      rwa [Nat.zero_div] at hframe
    have hready : Ready d (after d s (lineOf d ((gap, byte) :: rest)) gap) := by
      refine ⟨hrest.timer, hrest.state, hrest.baudreset, ?_⟩
      have hglitch := hfirst gap rfl
      rwa [after_succ, hedge] at hglitch
    have hnone : [] ++ [] = completed d s (lineOf d ((gap, byte) :: rest)) 0 gap ++ [] := by
      rw [hout]
    have hreceives := Receives.after_stretch hnone
      ((Opening.ready hready).receives fun h => h.receives rest)
    rw [← Nat.add_assoc] at hreceives
    obtain ⟨p', hp', hsum⟩ := hreceives
    obtain ⟨harmed, hlast⟩ := hp'.step
    have hend := lineOf_end (d := d) ((gap, byte) :: rest) 0
    rw [duration, Nat.add_zero] at hend
    rw [duration, completed, Run.events_succ, ← completed, after_succ, hend, Nat.zero_add, ← hlast]
    exact ⟨⟨harmed.timer, harmed.state, harmed.baudreset⟩, hsum.symm⟩

def written (d : BitVec 16) (s : Receiver) (line : Nat → Bool) (n : Nat) : List (BitVec 8) :=
  Run.events (fun k => writes (after d s line k)) 0 n

theorem Reset.written_eq (hs : Reset d s) (line : Nat → Bool) (m : Nat) :
    written d s line (m + 2) = completed d s line 0 m := by
  obtain ⟨p, hp, hsum⟩ := Run.conservation (n := 0) (d := m)
    (fun k => completes (after d s line k)) (fun k => writes (after d s line k))
    (fun k p => HandOff p (after d s line k)) (.quiet hs.dataready hs.dataReadyDly hs.dready)
    fun k _ _ p hp => hp.step d (line k)
  rw [Nat.zero_add] at hp
  have hsettles := hp.settles d (line m)
  rw [← after_succ] at hsettles
  rw [written, Run.events_succ, Run.events_succ, Nat.zero_add, Nat.zero_add, List.append_assoc,
    ← hsettles, ← hsum]
  rfl

/-- The receiver decodes every well-timed line, at any divider and any phase of the tick, whose
first start edge does not meet a tick of the bit timer with an empty filter: when the last frame has
been sent, the bytes that were written are the bytes that were sent. -/
theorem receives_line (hs : Reset d s) (frames : List (Nat × BitVec 8))
    (hfirst : FirstEdge d s frames) (hn : duration d frames + 3 ≤ n) :
    written d s (lineOf d frames) n = frames.map Prod.snd := by
  obtain ⟨hrest, hout⟩ := hs.completed_frames hfirst
  obtain ⟨m, rfl⟩ : ∃ m, n = duration d frames + 1 + m + 2 :=
    ⟨n - (duration d frames + 3), by omega⟩
  have hquiet := (hrest.run (m := m)
    (fun k => lineOf d frames (duration d frames + 1 + k)) fun k _ => by
      rw [Nat.add_assoc]
      exact lineOf_end frames _).2
  rw [hs.written_eq, completed_add, hout, hquiet, List.append_nil]

/-- The receiver after power-up, with the divider at 0. -/
def powerUp : Receiver where
  timer := ⟨0, false⟩
  filter := ⟨0, false⟩
  baudgen := ⟨0, false⟩
  state := .rxIdle
  rxd := 0
  datacount := 0
  baudreset := false
  datao := 0
  dataready := false
  dataReadyDly := false
  dready := false

theorem powerUp_reset : Reset 0 powerUp :=
  ⟨by decide, rfl, rfl, rfl, by decide, rfl, rfl, rfl, rfl, rfl, rfl⟩

theorem receives_line_at_once :
    written 0 powerUp (lineOf 0 [(0, 0x81), (1, 0x41)]) 324 = [0x81, 0x41] := by
  refine receives_line powerUp_reset [(0, 0x81), (1, 0x41)] ?_ (by decide)
  intro gap hgap
  obtain rfl : 0 = gap := by simpa using hgap
  decide +kernel

/-- A start edge that meets the first tick: the start bit is taken for the first bit of the byte. -/
theorem first_byte_garbled :
    Reset 0 powerUp ∧ written 0 powerUp (lineOf 0 [(1, 0x81)]) 170 = [0x02] := by
  refine ⟨powerUp_reset, ?_⟩
  decide +kernel

end Runs

end Receiver

end Xtc.Uart
