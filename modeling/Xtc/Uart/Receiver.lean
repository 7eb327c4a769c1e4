import Xtc.Lib.Run

/-!
# Receiver — `uart_brgen.vhd`, `uart_mv_filter.vhd`, `uart_rx.vhd` and the hand-off in `uart.vhd`

The tick of `rx_timer` samples the line into a majority filter; every sixteenth tick `baudgen` ends
a bit, and the same signal clears the filter.  The bit timer is started anew at a start edge, but in
the state `rx_idle` it runs freely.
-/

namespace Xtc.Uart

/-! ## The units -/

structure Brgen where
  cnt : Nat
  clkout : Bool

def Brgen.next (rst en : Bool) (count : Nat) (g : Brgen) : Brgen :=
  if rst then ⟨count, false⟩
  else if en then if g.cnt = 0 then ⟨count, true⟩ else ⟨g.cnt - 1, false⟩
  else ⟨g.cnt, false⟩

structure MvFilter (bits : Nat) where
  count : BitVec bits
  sout : Bool

def MvFilter.next {bits : Nat} (threshold : Nat) (sin clear enable : Bool) (f : MvFilter bits) :
    MvFilter bits :=
  if clear then ⟨0, false⟩
  else
    { count := if enable && sin then f.count + 1 else f.count
      sout := f.sout || decide (threshold ≤ f.count.toNat) }

inductive RxState
  | rxIdle | rxStart | rxData | rxEnd
  deriving DecidableEq

structure Receiver where
  -- `rx_timer`; its `clkout` is `rx_br`
  timer : Brgen
  -- `rxmvfilter`; its `sout` is `rxf`
  filter : MvFilter 4
  -- its `clkout` is `baudtick`
  baudgen : Brgen
  state : RxState
  rxd : BitVec 8
  datacount : BitVec 3
  baudreset : Bool
  datao : BitVec 8
  dataready : Bool
  -- the hand-off in `uart.vhd`
  dataReadyDly : Bool
  dready : Bool

namespace Receiver

section Signals

variable (d : BitVec 16) (rx : Bool) (s : Receiver)

def rxBr : Bool := s.timer.clkout

def rxf : Bool := s.filter.sout

def baudtick : Bool := s.baudgen.clkout

def filterreset : Bool := s.baudreset || baudtick s

/-- The clocked process of `uart_rx`. -/
def control : Receiver :=
  let w := { s with datao := s.rxd, baudreset := false, dataready := s.dataready && !s.dready }
  match s.state with
  | .rxIdle => if !rx then { w with state := .rxStart, baudreset := true } else w
  | .rxStart =>
    if baudtick s then
      if !rxf s then { w with datacount := 7, state := .rxData } else { w with state := .rxIdle }
    else w
  | .rxData =>
    if baudtick s then
      let w := { w with
        rxd := BitVec.ofBool (rxf s) ++ s.rxd.extractLsb 7 1, datacount := s.datacount - 1 }
      if s.datacount = 0 then { w with state := .rxEnd } else w
    else w
  | .rxEnd =>
    let w := if rxf s then { w with dataready := true, state := .rxIdle } else w
    if baudtick s then { w with state := .rxIdle } else w

def next : Receiver :=
  { control rx s with
    timer := s.timer.next false true d.toNat
    filter := s.filter.next 10 rx (filterreset s) (rxBr s)
    baudgen := s.baudgen.next s.baudreset (rxBr s) 15
    dataReadyDly := s.dataready
    dready := s.dataready && !s.dataReadyDly }

def writes : Option (BitVec 8) := if s.dready then some s.datao else none

/-- What reset leaves.  The divider is constant, and the tick may have any phase; `baudgen` is not
reset. -/
structure Reset : Prop where
  timer : s.timer.cnt ≤ d.toNat
  tick : s.timer.clkout = false
  count : s.filter.count = 0
  sout : s.filter.sout = false
  baudgen : s.baudgen.cnt ≤ 15
  baudtick : s.baudgen.clkout = false
  state : s.state = .rxIdle
  baudreset : s.baudreset = false
  dataready : s.dataready = false
  dataReadyDly : s.dataReadyDly = false
  dready : s.dready = false

end Signals

/-! ## The hand-off -/

def completes (s : Receiver) : Option (BitVec 8) :=
  if s.state = .rxEnd ∧ rxf s = true then some s.rxd else none

/-- The clocks of a hand-off: none under way, `data_av` is up, the byte is written, and `data_av` is
down again.  The state machine has left the stop bit and cannot be back in it before the end. -/
inductive HandOff : List (BitVec 8) → Receiver → Prop
  | quiet {s : Receiver} : s.dataready = false → s.dataReadyDly = false → s.dready = false →
      HandOff [] s
  | ready {s : Receiver} : s.dataready = true → s.dataReadyDly = false → s.dready = false →
      s.state = .rxIdle → HandOff [s.rxd] s
  | write {s : Receiver} : s.dataready = true → s.dataReadyDly = true → s.dready = true →
      s.state = .rxIdle ∨ s.state = .rxStart → HandOff [s.datao] s
  | ended {s : Receiver} : s.dataready = false → s.dataReadyDly = true → s.dready = false →
      s.state ≠ .rxEnd → HandOff [] s

section

variable (d : BitVec 16) (rx : Bool) {s : Receiver}

theorem datao_next : (next d rx s).datao = s.rxd := by
  show (control rx s).datao = s.rxd
  unfold control
  cases s.state with
  | rxIdle => cases rx <;> rfl
  | rxStart => cases baudtick s <;> cases rxf s <;> rfl
  | rxData =>
    cases baudtick s
    · rfl
    · simp [apply_ite datao]
  | rxEnd => cases baudtick s <;> cases rxf s <;> rfl

theorem dataready_next :
    (next d rx s).dataready = ((completes s).isSome || (s.dataready && !s.dready)) := by
  show (control rx s).dataready = _
  unfold control completes
  cases s.state with
  | rxIdle => cases rx <;> rfl
  | rxStart => cases baudtick s <;> cases rxf s <;> rfl
  | rxData =>
    cases baudtick s
    · rfl
    · simp [apply_ite dataready]
  | rxEnd => cases baudtick s <;> cases rxf s <;> rfl

theorem rxd_next (h : s.state ≠ .rxData) : (next d rx s).rxd = s.rxd := by
  show (control rx s).rxd = s.rxd
  unfold control
  cases hs : s.state with
  | rxIdle => cases rx <;> rfl
  | rxStart => cases baudtick s <;> cases rxf s <;> rfl
  | rxData => exact absurd hs h
  | rxEnd => cases baudtick s <;> cases rxf s <;> rfl

theorem baudreset_next :
    (next d rx s).baudreset = decide (s.state = .rxIdle ∧ rx = false) := by
  show (control rx s).baudreset = _
  unfold control
  cases s.state with
  | rxIdle => cases rx <;> rfl
  | rxStart => cases baudtick s <;> cases rxf s <;> rfl
  | rxData =>
    cases baudtick s
    · rfl
    · simp [apply_ite baudreset]
  | rxEnd => cases baudtick s <;> cases rxf s <;> rfl

theorem state_next_idle (h : s.state = .rxIdle) :
    (next d rx s).state = if rx then .rxIdle else .rxStart := by
  show (control rx s).state = _
  unfold control
  rw [h]
  cases rx <;> rfl

theorem state_next_start (h : s.state = .rxStart) : (next d rx s).state =
    if baudtick s then if rxf s then .rxIdle else .rxData else .rxStart := by
  show (control rx s).state = _
  unfold control
  rw [h]
  cases baudtick s <;> cases rxf s <;> rfl

theorem state_next_end (h : s.state = .rxEnd) : (next d rx s).state =
    if rxf s || baudtick s then .rxIdle else .rxEnd := by
  show (control rx s).state = _
  unfold control
  rw [h]
  cases baudtick s <;> cases rxf s <;> rfl

theorem next_data (h : s.state = .rxData) (hb : baudtick s = true) :
    (next d rx s).state = (if s.datacount = 0 then .rxEnd else .rxData) ∧
    (next d rx s).datacount = s.datacount - 1 ∧
    (next d rx s).rxd = BitVec.ofBool (rxf s) ++ s.rxd.extractLsb 7 1 := by
  show (control rx s).state = _ ∧ (control rx s).datacount = _ ∧ (control rx s).rxd = _
  unfold control
  rw [h, hb]
  by_cases h0 : s.datacount = 0
  · simp only [h0, if_true, and_self]
  · simp only [if_neg h0, if_true, and_self]

theorem next_data_waits (h : s.state = .rxData) (hb : baudtick s = false) :
    (next d rx s).state = .rxData ∧ (next d rx s).datacount = s.datacount ∧
    (next d rx s).rxd = s.rxd := by
  show (control rx s).state = _ ∧ (control rx s).datacount = _ ∧ (control rx s).rxd = _
  unfold control
  rw [h, hb]
  exact ⟨rfl, rfl, rfl⟩

theorem datacount_next_start (h : s.state = .rxStart) (hb : baudtick s = true)
    (hf : rxf s = false) : (next d rx s).datacount = 7 := by
  show (control rx s).datacount = _
  unfold control
  rw [h, hb, hf]
  rfl

theorem completes_eq_none (h : s.state ≠ .rxEnd) : completes s = none := if_neg fun hc => h hc.1

/-- The byte of a stop bit is written two clocks after it is complete, and once. -/
theorem HandOff.step {p : List (BitVec 8)} (h : HandOff p s) : ∃ p', HandOff p' (next d rx s) ∧
    p ++ (completes s).toList = (writes s).toList ++ p' := by
  have hready := dataready_next d rx (s := s)
  have hdly : (next d rx s).dataReadyDly = s.dataready := rfl
  have hwrite : (next d rx s).dready = (s.dataready && !s.dataReadyDly) := rfl
  cases h with
  | quiet h1 h2 h3 =>
    rw [h1] at hready hdly hwrite
    have hnone : writes s = none := by simp [writes, h3]
    rw [hnone]
    by_cases hend : s.state = .rxEnd ∧ rxf s = true
    · have hcompletes : completes s = some s.rxd := if_pos hend
      have hstate := state_next_end d rx hend.1
      have hrxd := rxd_next d rx (s := s) (by rw [hend.1]; decide)
      rw [hcompletes] at hready
      rw [hend.2] at hstate
      exact ⟨_, .ready hready hdly hwrite hstate, by rw [hcompletes, hrxd]; rfl⟩
    · have hcompletes : completes s = none := if_neg hend
      rw [hcompletes] at hready
      exact ⟨_, .quiet hready hdly hwrite, by rw [hcompletes]; rfl⟩
  | ready h1 h2 h3 h4 =>
    have hcompletes := completes_eq_none (s := s) (by rw [h4]; decide)
    rw [hcompletes, h1, h3] at hready
    rw [h1] at hdly
    rw [h1, h2] at hwrite
    have hstate := state_next_idle d rx h4
    refine ⟨_, .write hready hdly hwrite ?_, ?_⟩
    · cases rx
      · exact .inr hstate
      · exact .inl hstate
    · rw [hcompletes, datao_next, writes, h3]
      rfl
  | write h1 h2 h3 h4 =>
    have hcompletes := completes_eq_none (s := s) (by rcases h4 with h4 | h4 <;> rw [h4] <;> decide)
    rw [hcompletes, h1, h3] at hready
    rw [h1] at hdly
    rw [h1, h2] at hwrite
    refine ⟨_, .ended hready hdly hwrite ?_, ?_⟩
    · rcases h4 with h4 | h4
      · rw [state_next_idle d rx h4]
        cases rx <;> decide
      · rw [state_next_start d rx h4]
        split_ifs <;> decide
    · rw [hcompletes, writes, h3]
      rfl
  | ended h1 h2 h3 h4 =>
    have hcompletes := completes_eq_none h4
    rw [hcompletes, h1] at hready
    rw [h1] at hdly hwrite
    refine ⟨_, .quiet hready hdly hwrite, ?_⟩
    rw [hcompletes, writes, h3]
    rfl

/-- The byte under way is written in this clock or in the next. -/
theorem HandOff.settles {p : List (BitVec 8)} (h : HandOff p s) :
    p = (writes s).toList ++ (writes (next d rx s)).toList := by
  have hwrite : (next d rx s).dready = (s.dataready && !s.dataReadyDly) := rfl
  have hdatao := datao_next d rx (s := s)
  cases h with
  | quiet h1 h2 h3 =>
    rw [h1] at hwrite
    rw [writes, writes, h3, hwrite]
    rfl
  | ready h1 h2 h3 _ =>
    rw [h1, h2] at hwrite
    rw [writes, writes, h3, hwrite, hdatao]
    rfl
  | write h1 h2 h3 _ =>
    rw [h1, h2] at hwrite
    rw [writes, writes, h3, hwrite]
    rfl
  | ended h1 h2 h3 _ =>
    rw [h1] at hwrite
    rw [writes, writes, h3, hwrite]
    rfl

end

end Receiver

end Xtc.Uart
