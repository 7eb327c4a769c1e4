import Xtc.Core.Package
import Xtc.Lib.Run
import Xtc.Lib.Slave

/-!
# Fill — the burst state machine of `vga_320_240_idx.vhd`

The controller fetches the picture in bursts of sixteen words, five for a line, and every line
twice.  Requests and acknowledges are counted apart, and the strobe is a register that follows the
request counter by a clock: after the last request it is up for one clock more.
-/

namespace Xtc.Vga

/-! ## The controller -/

inductive State
  | idle | fill
  deriving DecidableEq

structure Regs where
  state : State
  memptr : Word
  rburst : Int
  wburst : Int
  bcnt : Int
  cyc : Bool
  stb : Bool
  odd : Bool

def burstSize : Int := 16

/-- What the process reads in a clock: the FIFO, the frame clock, the base register and the bus. -/
structure Input where
  fifoAlmostFull : Bool
  vgaReset : Bool
  membase : Word
  stall : Bool
  ack : Bool

/-- `when idle`. -/
def Regs.idle (c : Input) (r : Regs) : Regs :=
  let w :=
    if !c.fifoAlmostFull && !c.vgaReset then
      { r with state := .fill, rburst := burstSize - 1, wburst := burstSize, stb := true,
               cyc := true }
    else r
  if c.vgaReset then { w with odd := false, bcnt := 4, memptr := c.membase } else w

/-- `when fill`. -/
def Regs.fill (c : Input) (r : Regs) : Regs :=
  let w := { r with cyc := true, stb := r.wburst ≠ 0 }
  let w :=
    if !c.stall ∧ r.wburst ≠ 0 then { w with memptr := r.memptr + 4, wburst := r.wburst - 1 }
    else w
  if c.ack then
    let w := { w with rburst := r.rburst - 1 }
    if r.rburst = 0 then
      let w := { w with state := .idle, stb := false, cyc := false, bcnt := r.bcnt - 1 }
      -- the end of a line: the first time round the address goes back to its beginning
      if r.bcnt = 0 then
        let w := { w with bcnt := 4, odd := !r.odd }
        if !r.odd then { w with memptr := r.memptr - 320 } else w
      else w
    else w
  else w

def Regs.next (c : Input) (r : Regs) : Regs :=
  match r.state with
  | .idle => r.idle c
  | .fill => r.fill c

/-! ## The controller and its bus -/

/-- The controller, and the addresses that the slave has taken and not answered. -/
structure System where
  r : Regs
  pending : List Word

namespace System

def accepted (i : Input) (s : System) : Option Word :=
  if s.r.cyc && s.r.stb && !i.stall then some s.r.memptr else none

def answered (i : Input) (s : System) : Option Word :=
  Slave.answer i.ack (Slave.offered s.pending (accepted i s))

/-- The word that is written to the FIFO, out of the memory behind the slave. -/
def fifoWrite (mem : Word → Word) (i : Input) (s : System) : Option Word :=
  if s.r.state = .fill then (answered i s).map mem else none

/-- The slave answers the oldest request it has taken in the clocks in which `ack` is up. -/
def control (i : Input) (s : System) : Input := { i with ack := (answered i s).isSome }

def next (i : Input) (s : System) : System where
  r := s.r.next (control i s)
  pending := Slave.rest i.ack (Slave.offered s.pending (accepted i s))

def Starts (i : Input) (s : System) : Prop := s.r.state = .idle ∧ i.vgaReset = true

/-- The registers that reset writes, and a bus without requests. -/
structure Reset (s : System) : Prop where
  state : s.r.state = .idle
  cyc : s.r.cyc = false
  stb : s.r.stb = false
  odd : s.r.odd = false
  bcnt : s.r.bcnt = 4
  pending : s.pending = []

end System

/-! ## The words of the picture -/

/-- Word `i` of what is displayed from `base` on: lines of eighty words, each of them twice. -/
def wordAt (base : Word) (i : Nat) : Word := base + BitVec.ofNat 32 (4 * (80 * (i / 160) + i % 80))

theorem wordAt_zero (base : Word) : wordAt base 0 = base := by simp [wordAt]

theorem wordAt_burst (base : Word) (b : Nat) {j : Nat} (hj : j < 16) :
    wordAt base (16 * b + j) = wordAt base (16 * b) + BitVec.ofNat 32 (4 * j) := by
  have hoff : 4 * (80 * ((16 * b + j) / 160) + (16 * b + j) % 80) =
      4 * (80 * (16 * b / 160) + 16 * b % 80) + 4 * j := by omega
  unfold wordAt
  rw [hoff, BitVec.ofNat_add, BitVec.add_assoc]

/-- Where the burst after a burst begins: behind it, but for the first copy of a line. -/
theorem wordAt_next (base : Word) (b : Nat) (h : b % 5 ≠ 4 ∨ b / 5 % 2 = 1) :
    wordAt base (16 * (b + 1)) = wordAt base (16 * b) + 64 := by
  have hoff : 4 * (80 * (16 * (b + 1) / 160) + 16 * (b + 1) % 80) =
      4 * (80 * (16 * b / 160) + 16 * b % 80) + 64 := by omega
  unfold wordAt
  rw [hoff, BitVec.ofNat_add, BitVec.add_assoc]
  rfl

theorem wordAt_again (base : Word) (b : Nat) (h5 : b % 5 = 4) (h2 : b / 5 % 2 = 0) :
    wordAt base (16 * (b + 1)) = wordAt base (16 * b) + 64 - 320 := by
  have hoff : 4 * (80 * (16 * (b + 1) / 160) + 16 * (b + 1) % 80) + 256 =
      4 * (80 * (16 * b / 160) + 16 * b % 80) := by omega
  unfold wordAt
  rw [← hoff, BitVec.ofNat_add]
  bv_omega

/-! ## Between bursts and within one -/

namespace System

/-- `b` bursts have been made since the frame began at `base`. -/
structure Counts (base : Word) (b : Nat) (s : System) : Prop where
  bcnt : s.r.bcnt = 4 - (b % 5 : Nat)
  odd : s.r.odd = decide (b / 5 % 2 = 1)

/-- The controller is idle after `b` bursts. -/
structure Between (base : Word) (b : Nat) (s : System) : Prop extends Counts base b s where
  state : s.r.state = .idle
  cyc : s.r.cyc = false
  stb : s.r.stb = false
  memptr : s.r.memptr = wordAt base (16 * b)
  pending : s.pending = []

/-- The controller is in the burst behind them, of which `t` requests have been taken and `w`
answered. -/
structure Within (base : Word) (b t w : Nat) (s : System) : Prop extends Counts base b s where
  state : s.r.state = .fill
  cyc : s.r.cyc = true
  stb : t < 16 → s.r.stb = true
  bound : t ≤ 16
  order : w ≤ t
  acked : w < 16
  wburst : s.r.wburst = 16 - (t : Int)
  rburst : s.r.rburst = 15 - (w : Int)
  memptr : s.r.memptr = wordAt base (16 * b) + BitVec.ofNat 32 (4 * t)
  pending : s.pending = Slave.burst (wordAt base) (16 * b + w) (16 * b + t)

/-- What the bus has to do for a burst to be sixteen requests: stall the strobe that is left behind
the last of them.  And the first copy of a line must not end in the clock of its last request, since
the address goes back from where it was before that request. -/
@[mk_iff] structure Ok (i : Input) (s : System) : Prop where
  strobe : s.r.state = .fill → s.r.stb = true → s.r.wburst = 0 → i.stall = true
  lineEnd : s.r.state = .fill → (answered i s).isSome = true → s.r.rburst = 0 → s.r.bcnt = 0 →
    s.r.odd = false → s.r.wburst = 0

instance (i : Input) (s : System) : Decidable (Ok i s) :=
  decidable_of_iff _ (ok_iff ..).symm

variable {base : Word} {b t w : Nat} {s : System} {i : Input}

theorem Reset.between (h : s.Reset) : Between s.r.memptr 0 s where
  bcnt := h.bcnt
  odd := h.odd
  state := h.state
  cyc := h.cyc
  stb := h.stb
  memptr := (wordAt_zero _).symm
  pending := h.pending

theorem Between.accepted (h : Between base b s) : accepted i s = none := by
  simp [System.accepted, h.cyc]

theorem Between.answered (h : Between base b s) : answered i s = none := by
  simp [System.answered, h.accepted, h.pending]

theorem next_idle (h : s.r.state = .idle) : (next i s).r = s.r.idle (control i s) := by
  show s.r.next (control i s) = _
  rw [Regs.next, h]

theorem next_fill (h : s.r.state = .fill) : (next i s).r = s.r.fill (control i s) := by
  show s.r.next (control i s) = _
  rw [Regs.next, h]

theorem Between.next_pending (h : Between base b s) : (next i s).pending = [] := by
  show Slave.rest i.ack (Slave.offered s.pending (System.accepted i s)) = []
  simp [h.accepted, h.pending]

/-- An idle clock. -/
theorem Between.step (h : Between base b s) (hno : i.vgaReset = false) :
    Between base b (next i s) ∨ Within base b 0 0 (next i s) := by
  have hr := next_idle (i := i) h.state
  have hreset : (control i s).vgaReset = false := hno
  have hpending := h.next_pending (i := i)
  cases hfull : (control i s).fifoAlmostFull with
  | true =>
    have hsame : (next i s).r = s.r := by
      rw [hr, Regs.idle, hfull, hreset]
      rfl
    exact .inl ⟨⟨hsame ▸ h.bcnt, hsame ▸ h.odd⟩, hsame ▸ h.state, hsame ▸ h.cyc, hsame ▸ h.stb,
      hsame ▸ h.memptr, hpending⟩
  | false =>
    have hgo : (next i s).r = ⟨.fill, s.r.memptr, 15, 16, s.r.bcnt, true, true, s.r.odd⟩ := by
      rw [hr, Regs.idle, hfull, hreset]
      rfl
    refine .inr ⟨⟨?_, ?_⟩, ?_, ?_, fun _ => ?_, by omega, le_rfl, by omega, ?_, ?_, ?_, ?_⟩
    · rw [hgo]
      exact h.bcnt
    · rw [hgo]
      exact h.odd
    · rw [hgo]
    · rw [hgo]
    · rw [hgo]
    · rw [hgo]
      rfl
    · rw [hgo]
      rfl
    · rw [hgo, h.memptr]
      simp
    · rw [hpending, Slave.burst_self]

/-- A frame begins. -/
theorem Between.start (h : Between base b s) (hreset : i.vgaReset = true) :
    Between i.membase 0 (next i s) := by
  have hr := next_idle (i := i) h.state
  have hgo : (next i s).r = ⟨s.r.state, i.membase, s.r.rburst, s.r.wburst, 4, s.r.cyc, s.r.stb,
      false⟩ := by
    have hreset' : (control i s).vgaReset = true := hreset
    rw [hr, Regs.idle, hreset']
    simp [control]
  refine ⟨⟨?_, ?_⟩, ?_, ?_, ?_, ?_, h.next_pending⟩
  · rw [hgo]
    rfl
  · rw [hgo]
    rfl
  · rw [hgo]
    exact h.state
  · rw [hgo]
    exact h.cyc
  · rw [hgo]
    exact h.stb
  · rw [hgo, wordAt_zero]

/-! ### A clock of a burst -/

def taken (i : Input) (t : Nat) : Nat := if i.stall = false ∧ t < 16 then t + 1 else t

theorem le_taken (i : Input) (t : Nat) : t ≤ taken i t := by
  unfold taken
  split <;> omega

theorem taken_le (ht : t ≤ 16) : taken i t ≤ 16 := by
  unfold taken
  split <;> omega

theorem Within.accepted (h : Within base b t w s) (hok : Ok i s) :
    (accepted i s).toList = Slave.burst (wordAt base) (16 * b + t) (16 * b + taken i t) := by
  unfold System.accepted taken
  rw [h.cyc]
  by_cases ht : t < 16
  · rw [h.stb ht, h.memptr, ← wordAt_burst base b ht]
    cases i.stall with
    | true => simp
    | false => simp [ht, ← Nat.add_assoc, Slave.burst_succ]
  · have hw : s.r.wburst = 0 := by
      have := h.wburst
      have := h.bound
      omega
    have hnone : (s.r.stb && !i.stall) = false := by
      cases hstb : s.r.stb with
      | false => rfl
      | true =>
        rw [hok.strobe h.state hstb hw]
        rfl
    simp [hnone, ht]

theorem Within.offered (h : Within base b t w s) (hok : Ok i s) :
    Slave.offered s.pending (System.accepted i s) =
      Slave.burst (wordAt base) (16 * b + w) (16 * b + taken i t) := by
  rw [Slave.offered, h.accepted hok, h.pending, Slave.burst_append]
  · have := h.order
    omega
  · have := le_taken i t
    omega

theorem fill_goes_on {c : Input} {r : Regs} (h : ¬(c.ack = true ∧ r.rburst = 0)) : r.fill c =
    { r with
      cyc := true
      stb := r.wburst ≠ 0
      memptr := if c.stall = false ∧ r.wburst ≠ 0 then r.memptr + 4 else r.memptr
      wburst := if c.stall = false ∧ r.wburst ≠ 0 then r.wburst - 1 else r.wburst
      rburst := if c.ack then r.rburst - 1 else r.rburst } := by
  simp only [Regs.fill, Bool.not_eq_true']
  by_cases hack : c.ack = true
  · rw [if_pos hack, if_neg (fun hr => h ⟨hack, hr⟩), if_pos hack]
    split_ifs <;> rfl
  · rw [if_neg hack, if_neg hack]
    split_ifs <;> rfl

/-- In the last clock of a burst. -/
theorem fill_ends {c : Input} {r : Regs} (hack : c.ack = true) (hr : r.rburst = 0) :
    (r.fill c).state = .idle ∧ (r.fill c).cyc = false ∧ (r.fill c).stb = false ∧
    (r.fill c).bcnt = (if r.bcnt = 0 then 4 else r.bcnt - 1) ∧
    (r.fill c).odd = (if r.bcnt = 0 then !r.odd else r.odd) ∧
    (r.fill c).memptr =
      if r.bcnt = 0 ∧ r.odd = false then r.memptr - 320
      else if c.stall = false ∧ r.wburst ≠ 0 then r.memptr + 4 else r.memptr := by
  simp only [Regs.fill, Bool.not_eq_true']
  rw [if_pos hack, if_pos hr]
  by_cases hb : r.bcnt = 0
  · rw [if_pos hb]
    cases hodd : r.odd with
    | true => split_ifs <;> simp_all
    | false => split_ifs <;> simp_all
  · rw [if_neg hb]
    split_ifs <;> simp_all

/-- A clock that is not the last one of the burst. -/
theorem Within.goes_on (h : Within base b t w s) {w' : Nat} (hw' : w' < 16)
    (hle : w' ≤ taken i t)
    (hrburst : (if (answered i s).isSome then s.r.rburst - 1 else s.r.rburst) = 15 - (w' : Int))
    (hlast : ¬((answered i s).isSome = true ∧ s.r.rburst = 0))
    (hpending : (next i s).pending =
      Slave.burst (wordAt base) (16 * b + w') (16 * b + taken i t)) :
    Within base b (taken i t) w' (next i s) := by
  have hr := (next_fill (i := i) h.state).trans (fill_goes_on hlast)
  have hstall : (control i s).stall = i.stall := rfl
  have hburst := h.wburst
  have hbound := h.bound
  refine ⟨⟨?_, ?_⟩, ?_, ?_, fun ht => ?_, taken_le hbound, hle, hw', ?_, ?_, ?_, hpending⟩
  · rw [hr]
    exact h.bcnt
  · rw [hr]
    exact h.odd
  · rw [hr]
    exact h.state
  · rw [hr]
  · rw [hr]
    have := le_taken i t
    simp only [decide_eq_true_eq]
    omega
  · rw [hr]
    show (if i.stall = false ∧ s.r.wburst ≠ 0 then s.r.wburst - 1 else s.r.wburst) = _
    unfold taken
    by_cases ht : i.stall = false ∧ t < 16
    · rw [if_pos ⟨ht.1, by omega⟩, if_pos ht]
      omega
    · rw [if_neg (fun hc => ht ⟨hc.1, by omega⟩), if_neg ht, hburst]
  · rw [hr]
    exact hrburst
  · rw [hr]
    show (if i.stall = false ∧ s.r.wburst ≠ 0 then s.r.memptr + 4 else s.r.memptr) = _
    unfold taken
    by_cases ht : i.stall = false ∧ t < 16
    · rw [if_pos ⟨ht.1, by omega⟩, if_pos ht, h.memptr, Nat.mul_succ, BitVec.ofNat_add,
        BitVec.add_assoc]
      rfl
    · rw [if_neg (fun hc => ht ⟨hc.1, by omega⟩), if_neg ht, h.memptr]

/-- The last clock of the burst: every request has been taken, and the next burst begins where its
words are. -/
theorem Within.ends (h : Within base b t w s) (hok : Ok i s)
    (hanswer : (answered i s).isSome = true) (hw : w = 15) (htaken : taken i t = 16)
    (hpending : (next i s).pending = []) : Between base (b + 1) (next i s) := by
  have hrburst : s.r.rburst = 0 := by
    have := h.rburst
    omega
  have hr := next_fill (i := i) h.state
  obtain ⟨hstate, hcyc, hstb, hbcnt, hodd, hmemptr⟩ :=
    fill_ends (c := control i s) (r := s.r) hanswer hrburst
  rw [← hr] at hstate hcyc hstb hbcnt hodd hmemptr
  have hline : s.r.bcnt = 0 ↔ b % 5 = 4 := by
    have := h.bcnt
    omega
  have hbound := h.bound
  have hburst := h.wburst
  -- the address behind the sixteenth request
  have hbehind : (if i.stall = false ∧ s.r.wburst ≠ 0 then s.r.memptr + 4 else s.r.memptr) =
      wordAt base (16 * b) + 64 := by
    unfold taken at htaken
    by_cases ht : i.stall = false ∧ t < 16
    · rw [if_pos ht] at htaken
      rw [if_pos ⟨ht.1, by omega⟩, h.memptr, show t = 15 by omega, BitVec.add_assoc]
      rfl
    · rw [if_neg ht] at htaken
      rw [if_neg (by omega), h.memptr, htaken]
      rfl
  refine ⟨⟨?_, ?_⟩, hstate, hcyc, hstb, ?_, hpending⟩
  · rw [hbcnt]
    have := h.bcnt
    by_cases hb : s.r.bcnt = 0
    · rw [if_pos hb]
      omega
    · rw [if_neg hb]
      omega
  · rw [hodd, h.odd]
    by_cases hb : s.r.bcnt = 0
    · have := hline.mp hb
      rw [if_pos hb, ← decide_not, decide_eq_decide]
      omega
    · have : b % 5 ≠ 4 := fun h5 => hb (hline.mpr h5)
      rw [if_neg hb, decide_eq_decide]
      omega
  · have hodd' : s.r.odd = false ↔ b / 5 % 2 = 0 := by
      rw [h.odd, decide_eq_false_iff_not]
      omega
    rw [hmemptr]
    by_cases hagain : s.r.bcnt = 0 ∧ s.r.odd = false
    · have hw0 := hok.lineEnd h.state hanswer hrburst hagain.1 hagain.2
      rw [if_neg (by omega)] at hbehind
      rw [if_pos hagain, hbehind, wordAt_again base b (hline.mp hagain.1) (hodd'.mp hagain.2)]
    · have hnext : b % 5 ≠ 4 ∨ b / 5 % 2 = 1 := by
        by_cases h5 : b % 5 = 4
        · right
          have : ¬ b / 5 % 2 = 0 := fun h2 => hagain ⟨hline.mpr h5, hodd'.mpr h2⟩
          omega
        · exact .inl h5
      rw [if_neg hagain, wordAt_next base b hnext]
      exact hbehind

/-- A clock of a burst: requests are taken and answered in their order, until the sixteenth. -/
theorem Within.step (h : Within base b t w s) (hok : Ok i s) : ∃ t' w', t ≤ t' ∧ w ≤ w' ∧
    (System.accepted i s).toList = Slave.burst (wordAt base) (16 * b + t) (16 * b + t') ∧
    (answered i s).toList = Slave.burst (wordAt base) (16 * b + w) (16 * b + w') ∧
    (Within base b t' w' (next i s) ∨ t' = 16 ∧ w' = 16 ∧ Between base (b + 1) (next i s)) := by
  have haccepted := h.accepted hok
  have hoffered := h.offered hok
  have hle := le_taken i t
  have hbound := taken_le (i := i) h.bound
  have horder := h.order
  have hacked := h.acked
  have hrburst := h.rburst
  have hpending : (next i s).pending =
      Slave.rest i.ack (Slave.burst (wordAt base) (16 * b + w) (16 * b + taken i t)) :=
    congrArg (Slave.rest i.ack) hoffered
  have hanswered : answered i s =
      Slave.answer i.ack (Slave.burst (wordAt base) (16 * b + w) (16 * b + taken i t)) :=
    congrArg (Slave.answer i.ack) hoffered
  cases hans : answered i s with
  | none =>
    rw [hans] at hanswered
    rw [Slave.rest_of_answer_none hanswered.symm] at hpending
    refine ⟨taken i t, w, hle, le_rfl, haccepted, by simp, .inl ?_⟩
    exact h.goes_on hacked (by omega) (by rw [hans]; exact hrburst) (by simp [hans]) hpending
  | some adr =>
    rw [hans] at hanswered
    obtain ⟨hlt, hadr, hrest⟩ := Slave.answer_burst hanswered.symm
    rw [hrest] at hpending
    have hlist : (some adr).toList =
        Slave.burst (wordAt base) (16 * b + w) (16 * b + (w + 1)) := by
      rw [← Nat.add_assoc, Slave.burst_succ, hadr]
      rfl
    refine ⟨taken i t, w + 1, hle, by omega, haccepted, hlist, ?_⟩
    by_cases hlast : w = 15
    · have htaken : taken i t = 16 := by omega
      refine .inr ⟨htaken, by omega, h.ends hok (by rw [hans]; rfl) hlast htaken ?_⟩
      rw [hpending, htaken, hlast]
      exact Slave.burst_self _ _
    · refine .inl (h.goes_on (by omega) (by omega) ?_ (fun hc => ?_) hpending)
      · rw [hans, Option.isSome_some, if_pos rfl]
        omega
      · omega

/-! ## Frames -/

/-- Of the words from `base` on, `taken` have been asked for and `acked` have come. -/
inductive Along (base : Word) : Nat → Nat → System → Prop
  | between {b : Nat} {s : System} : Between base b s → Along base (16 * b) (16 * b) s
  | within {b t w : Nat} {s : System} :
      Within base b t w s → Along base (16 * b + t) (16 * b + w) s

section

variable {m n : Nat}

theorem Along.fifoWrite (h : Along base m n s) (mem : Word → Word) :
    fifoWrite mem i s = (answered i s).map mem := by
  cases h with
  | between h =>
    rw [System.fifoWrite, h.state, h.answered]
    rfl
  | within h => rw [System.fifoWrite, if_pos h.state]

theorem Along.idle (h : Along base m n s) (hidle : s.r.state = .idle) :
    ∃ b, m = 16 * b ∧ n = 16 * b ∧ Between base b s := by
  cases h with
  | between h => exact ⟨_, rfl, rfl, h⟩
  | within h => exact absurd (h.state.symm.trans hidle) (by decide)

theorem Along.step (h : Along base m n s) (hok : Ok i s) (hno : ¬ Starts i s) :
    ∃ m' n', m ≤ m' ∧ n ≤ n' ∧ Along base m' n' (next i s) ∧
    (answered i s).toList = Slave.burst (wordAt base) n n' := by
  cases h with
  | @between b _ h =>
    have hreset : i.vgaReset = false := by
      cases hr : i.vgaReset with
      | false => rfl
      | true => exact absurd ⟨h.state, hr⟩ hno
    refine ⟨16 * b, 16 * b, le_rfl, le_rfl, ?_, by simp [h.answered]⟩
    rcases h.step hreset with h' | h'
    · exact .between h'
    · exact .within h'
  | @within b t w _ h =>
    obtain ⟨t', w', ht, hw, -, hanswered, h' | ⟨rfl, rfl, h'⟩⟩ := h.step hok
    · exact ⟨_, _, by omega, by omega, .within h', hanswered⟩
    · exact ⟨_, _, by omega, by omega, .between h', hanswered⟩

/-- A frame may begin in any idle clock. -/
theorem Along.start (h : Along base m n s) (hstarts : Starts i s) :
    Between i.membase 0 (next i s) := by
  obtain ⟨b, -, -, h'⟩ := h.idle hstarts.1
  exact h'.start hstarts.2

end

variable (s : System) (inputs : Nat → Input)

def after (n : Nat) : System := Run.states next s inputs n

def accepts (n : Nat) : Option Word := accepted (inputs n) (after s inputs n)

def writes (mem : Word → Word) (n : Nat) : Option Word :=
  fifoWrite mem (inputs n) (after s inputs n)

/-- The controller is in `fill` for the `d` clocks behind clock `n`. -/
structure Visit (n d : Nat) : Prop where
  lasts : 0 < d
  before : (after s inputs n).r.state = .idle
  fill : ∀ k < d, (after s inputs (n + 1 + k)).r.state = .fill
  behind : (after s inputs (n + 1 + d)).r.state = .idle

variable {s inputs} {n d e : Nat}

theorem after_succ (n : Nat) : after s inputs (n + 1) = next (inputs n) (after s inputs n) := rfl

theorem along_after (hs : s.Reset) (hok : ∀ k < n, Ok (inputs k) (after s inputs k)) :
    ∃ base m l, Along base m l (after s inputs n) := by
  refine Run.invariant (fun s => ∃ base m l, Along base m l s) Ok ?_ ?_ n hok
  · exact ⟨_, _, _, .between hs.between⟩
  · intro i s hi ⟨base, m, l, h⟩
    by_cases hstarts : Starts i s
    · exact ⟨_, _, _, .between (h.start hstarts)⟩
    · obtain ⟨m', l', -, -, h', -⟩ := h.step hi hstarts
      exact ⟨_, _, _, h'⟩

/-- The words that are written until the next frame begins. -/
theorem Along.run {m l : Nat} (h : Along base m l (after s inputs n)) (mem : Word → Word)
    (hok : ∀ k < d, Ok (inputs (n + k)) (after s inputs (n + k)))
    (hno : ∀ k < d, ¬ Starts (inputs (n + k)) (after s inputs (n + k))) :
    ∃ m' l', l ≤ l' ∧ Along base m' l' (after s inputs (n + d)) ∧
    Run.events (writes s inputs mem) n d = Slave.burst (fun j => mem (wordAt base j)) l l' := by
  induction d with
  | zero => exact ⟨m, l, le_rfl, h, by simp⟩
  | succ d ih =>
    obtain ⟨m', l', hl, h', hwrites⟩ := ih (fun k hk => hok k (by omega))
      (fun k hk => hno k (by omega))
    obtain ⟨m'', l'', -, hl', h'', hanswered⟩ := h'.step (hok d (by omega)) (hno d (by omega))
    refine ⟨m'', l'', by omega, h'', ?_⟩
    rw [Run.events_succ, hwrites, writes, h'.fifoWrite, Option.toList_map, hanswered,
      Slave.map_burst, Slave.burst_append hl hl']

/-- The clocks of a visit: what is taken and what is written. -/
theorem Within.run (h : Within base b t w (after s inputs n)) (mem : Word → Word)
    (hok : ∀ k < d, Ok (inputs (n + k)) (after s inputs (n + k)))
    (hfill : ∀ k < d, (after s inputs (n + k)).r.state = .fill) :
    ∃ t' w', t ≤ t' ∧ w ≤ w' ∧
    Run.events (accepts s inputs) n d =
      Slave.burst (wordAt base) (16 * b + t) (16 * b + t') ∧
    Run.events (writes s inputs mem) n d =
      Slave.burst (fun j => mem (wordAt base j)) (16 * b + w) (16 * b + w') ∧
    (Within base b t' w' (after s inputs (n + d)) ∨
      t' = 16 ∧ w' = 16 ∧ Between base (b + 1) (after s inputs (n + d))) := by
  induction d with
  | zero => exact ⟨t, w, le_rfl, le_rfl, by simp, by simp, .inl h⟩
  | succ d ih =>
    obtain ⟨t', w', ht, hw, haccepts, hwrites, h' | ⟨-, -, h'⟩⟩ :=
      ih (fun k hk => hok k (by omega)) (fun k hk => hfill k (by omega))
    · obtain ⟨t'', w'', ht', hw', haccepted, hanswered, h''⟩ := h'.step (hok d (by omega))
      refine ⟨t'', w'', by omega, by omega, ?_, ?_, h''⟩
      · rw [Run.events_succ, haccepts, accepts, haccepted,
          Slave.burst_append (by omega) (by omega)]
      · rw [Run.events_succ, hwrites, writes, (Along.within h').fifoWrite, Option.toList_map,
          hanswered, Slave.map_burst, Slave.burst_append (by omega) (by omega)]
    · exact absurd ((hfill d (by omega)).symm.trans h'.state) (by decide)

/-- A visit begins from an idle clock in which no frame begins. -/
theorem Between.enter (h : Between base b s) (hfill : (next i s).r.state = .fill) :
    Within base b 0 0 (next i s) := by
  cases hreset : i.vgaReset with
  | true => exact absurd (hfill.symm.trans (h.start hreset).state) (by decide)
  | false =>
    rcases h.step hreset with h' | h'
    · exact absurd (hfill.symm.trans h'.state) (by decide)
    · exact h'

/-- A whole visit: sixteen requests from the address the controller stood at. -/
theorem Visit.fetches (hs : s.Reset) (hv : Visit s inputs n d) (mem : Word → Word)
    (hok : ∀ k < n + 1 + d, Ok (inputs k) (after s inputs k)) :
    Run.events (accepts s inputs) (n + 1) d =
      ((List.range 16).map fun j => (after s inputs n).r.memptr + BitVec.ofNat 32 (4 * j)) ∧
    Run.events (writes s inputs mem) (n + 1) d =
      (Run.events (accepts s inputs) (n + 1) d).map mem := by
  obtain ⟨base, m, l, halong⟩ := along_after (n := n) hs fun k hk => hok k (by omega)
  obtain ⟨b, -, -, hbetween⟩ := halong.idle hv.before
  have hwithin : Within base b 0 0 (after s inputs (n + 1)) := hbetween.enter (hv.fill 0 hv.lasts)
  obtain ⟨t, w, -, -, haccepts, hwrites, h' | ⟨rfl, rfl, -⟩⟩ :=
    hwithin.run mem (fun k hk => hok _ (by omega)) hv.fill
  · exact absurd (h'.state.symm.trans hv.behind) (by decide)
  · rw [haccepts, hwrites, Slave.map_burst]
    refine ⟨?_, rfl⟩
    rw [Nat.add_zero, Slave.burst_add, hbetween.memptr]
    apply List.map_congr_left
    intro j hj
    exact wordAt_burst base b (List.mem_range.mp hj)

/-- The words behind a frame start. -/
theorem writes_frame (hs : s.Reset) (mem : Word → Word)
    (hok : ∀ k < n + 1 + d, Ok (inputs k) (after s inputs k))
    (hstarts : Starts (inputs n) (after s inputs n))
    (hno : ∀ k < d, ¬ Starts (inputs (n + 1 + k)) (after s inputs (n + 1 + k))) :
    ∃ c, Run.events (writes s inputs mem) (n + 1) d =
      ((List.range c).map fun j => mem (wordAt (inputs n).membase j)) ∧
    ((after s inputs (n + 1 + d)).r.state = .idle → 16 ∣ c) := by
  obtain ⟨base, m, l, halong⟩ := along_after (n := n) hs fun k hk => hok k (by omega)
  have hbegin : Along (inputs n).membase 0 0 (after s inputs (n + 1)) :=
    .between (halong.start hstarts)
  obtain ⟨m', l', -, hend, hwrites⟩ := hbegin.run mem (fun k hk => hok _ (by omega)) hno
  refine ⟨l', ?_, fun hidle => ?_⟩
  · have hrange := Slave.burst_add (f := fun j => mem (wordAt (inputs n).membase j)) 0 l'
    simp only [Nat.zero_add] at hrange
    rw [hwrites, hrange]
  · obtain ⟨b', -, rfl, -⟩ := hend.idle hidle
    exact ⟨b', rfl⟩

/-- While the bus stalls the strobe that is left over and no first copy of a line ends with its last
request, every visit to `fill` fetches sixteen consecutive words and writes them to the FIFO, and
the words of a frame are its lines, each twice. -/
theorem fill_fetches_picture (hs : s.Reset) (hok : ∀ k < e, Ok (inputs k) (after s inputs k))
    (mem : Word → Word) :
    (∀ n d, n + 1 + d ≤ e → Visit s inputs n d →
      Run.events (accepts s inputs) (n + 1) d =
        ((List.range 16).map fun j => (after s inputs n).r.memptr + BitVec.ofNat 32 (4 * j)) ∧
      Run.events (writes s inputs mem) (n + 1) d =
        (Run.events (accepts s inputs) (n + 1) d).map mem) ∧
    (∀ n d, n + 1 + d ≤ e → Starts (inputs n) (after s inputs n) →
      (∀ k < d, ¬ Starts (inputs (n + 1 + k)) (after s inputs (n + 1 + k))) →
      ∃ c, Run.events (writes s inputs mem) (n + 1) d =
        ((List.range c).map fun j => mem (wordAt (inputs n).membase j)) ∧
      ((after s inputs (n + 1 + d)).r.state = .idle → 16 ∣ c)) := by
  constructor
  · intro n d he hv
    exact hv.fetches hs mem fun k hk => hok k (by omega)
  · intro n d he hstarts hno
    exact writes_frame hs mem (fun k hk => hok k (by omega)) hstarts hno

def fresh : System := ⟨⟨.idle, 0, 0, 0, 4, false, false, false⟩, []⟩

theorem fresh_reset : fresh.Reset := ⟨rfl, rfl, rfl, rfl, rfl, rfl⟩

/-- A frame starts in clock 0, and the slave answers every request a clock after it has taken it. -/
def promptly (n : Nat) : Input := ⟨false, n == 0, 0x1000, false, 2 < n⟩

/-- As `promptly`, with a stall behind the sixteenth request. -/
def stalling (n : Nat) : Input := ⟨false, n == 0, 0x1000, n == 18, 2 < n⟩

theorem fill_fetches_picture_stalling :
    (∀ k < 19, Ok (stalling k) (after fresh stalling k)) ∧ Visit fresh stalling 1 17 ∧
    Run.events (accepts fresh stalling) 2 17 =
      ((List.range 16).map fun j => 0x1000 + BitVec.ofNat 32 (4 * j)) := by
  have hok : ∀ k < 19, Ok (stalling k) (after fresh stalling k) := by decide +kernel
  have hvisit : Visit fresh stalling 1 17 :=
    ⟨by decide, by decide +kernel, by decide +kernel, by decide +kernel⟩
  refine ⟨hok, hvisit, ?_⟩
  exact ((fill_fetches_picture fresh_reset hok id).1 1 17 (by decide) hvisit).1

/-- Without that stall the bus takes a seventeenth request. -/
theorem seventeen_requests : fresh.Reset ∧
    ¬ ∀ n d, Visit fresh promptly n d →
      (Run.events (accepts fresh promptly) (n + 1) d).length = 16 := by
  have hvisit : Visit fresh promptly 1 17 :=
    ⟨by decide, by decide +kernel, by decide +kernel, by decide +kernel⟩
  have hseventeen : (Run.events (accepts fresh promptly) 2 17).length = 17 := by decide +kernel
  refine ⟨fresh_reset, fun h => ?_⟩
  exact absurd (hseventeen.symm.trans (h 1 17 hvisit)) (by decide)

end System

end Xtc.Vga
