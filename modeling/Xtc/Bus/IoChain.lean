import Xtc.Bus.Wishbone

/-!
# IoChain — `wb_master_p_to_slave_np.vhd`, `xtc_ioctrl.vhd` and the devices behind them

The bridge takes one request at a time and holds its strobe until the answer, which the controller
registers on its way back (`IO_REGISTER_INPUTS` is true).  A device answers in the clock after it is
asked.  What the devices do apart from answering is not modelled; the data they drive is an input
of the clock.
-/

namespace Xtc

abbrev Slot := BitVec 4

inductive Device
  | uart | sinkdev | nodev
  deriving DecidableEq, Repr

/-- The `ack` and `err` registers of a device. -/
structure DeviceRegs where
  ack : Bool
  err : Bool
  deriving DecidableEq

namespace Device

/-- `ack` of `uart` and `sinkdev`: one clock, for a request that is not being answered. -/
def ackNext (cyc stb : Bool) (r : DeviceRegs) : DeviceRegs := ⟨!r.ack && stb && cyc, false⟩

/-- `nodev` answers the same way with `err`. -/
def errNext (cyc stb : Bool) (r : DeviceRegs) : DeviceRegs := ⟨false, !r.err && stb && cyc⟩

def next (d : Device) (cyc stb : Bool) (r : DeviceRegs) : DeviceRegs :=
  match d with
  | .uart | .sinkdev => ackNext cyc stb r
  | .nodev => errNext cyc stb r

end Device

structure IoChainInput where
  mwbi : Mosi
  dat : Slot → Word

structure IoChain where
  -- the bridge: `state`, the register behind `mwbo.stall`, and `wo`
  waitForAck : Bool
  stall : Bool
  wo : Mosi
  -- the controller
  ackint : Bool
  err : Bool
  dat : Word
  tag : Word
  tagi : Word
  devices : Slot → DeviceRegs

namespace IoChain

section Signals

variable (i : IoChainInput) (s : IoChain)

def selnum : Slot := 0#1 ++ s.wo.adr.extractLsb 30 28

def transValid : Bool := !s.ackint

def slotCyc (k : Slot) : Bool := s.wo.cyc && k == selnum s && transValid s

def slotStb (k : Slot) : Bool := s.wo.stb && k == selnum s && transValid s

def mwbo : Miso where
  ack := s.ackint
  dat := s.dat
  tag := s.tag
  err := s.err
  stall := s.stall

def accepted : Bool := i.mwbi.cyc && i.mwbi.stb && !s.stall

def bridgeIdle : IoChain :=
  if i.mwbi.cyc && i.mwbi.stb then { s with waitForAck := true, wo := i.mwbi, stall := true } else s

def bridgeWait : IoChain :=
  if s.ackint || s.err then
    { s with waitForAck := false, wo := { s.wo with cyc := false, stb := false }, stall := false }
  else s

def next (slots : Slot → Device) : IoChain :=
  let w := if s.waitForAck then bridgeWait s else bridgeIdle i s
  { w with
    ackint := (s.devices (selnum s)).ack
    err := (s.devices (selnum s)).err
    dat := i.dat (selnum s)
    tag := s.tagi
    tagi := s.wo.tag
    devices := fun k => (slots k).next (slotCyc s k) (slotStb s k) (s.devices k) }

structure Reset (s : IoChain) : Prop where
  waitForAck : s.waitForAck = false
  stall : s.stall = false
  cyc : s.wo.cyc = false
  ackint : s.ackint = false
  err : s.err = false
  devices : ∀ k, s.devices k = ⟨false, false⟩

end Signals

abbrev run (slots : Slot → Device) (s₀ : IoChain) (inputs : Nat → IoChainInput) (n : Nat) :
    IoChain :=
  Run.states (fun i s => next i s slots) s₀ inputs n

/-! ## A request on its way -/

def slotOf (m : Mosi) : Slot := 0#1 ++ m.adr.extractLsb 30 28

/-- Clock `k` of a request to a device, or no request: the device is asked in clock 1, it answers in
clock 2, and the answer is at the master in clock 3. -/
structure Phase (slots : Slot → Device) (k : Nat) (s : IoChain) : Prop where
  bound : k < 4
  waitForAck : s.waitForAck = (k != 0)
  stall : s.stall = (k != 0)
  cyc : s.wo.cyc = (k != 0)
  stb : k ≠ 0 → s.wo.stb = true
  device : k ≠ 0 → slots (selnum s) ≠ .nodev
  ackint : s.ackint = (k == 3)
  err : s.err = false
  devices : ∀ j, s.devices j = ⟨k == 2 && j == selnum s, false⟩

theorem Reset.phase {s : IoChain} (h : Reset s) (slots : Slot → Device) : Phase slots 0 s where
  bound := by omega
  waitForAck := h.waitForAck
  stall := h.stall
  cyc := h.cyc
  stb h' := absurd rfl h'
  device h' := absurd rfl h'
  ackint := h.ackint
  err := h.err
  devices := h.devices

section Clock

variable {slots : Slot → Device} {i : IoChainInput} {s : IoChain} {k : Nat}

theorem next_answers {d : Device} (h : d ≠ .nodev) (cyc stb : Bool) (r : DeviceRegs) :
    d.next cyc stb r = ⟨!r.ack && stb && cyc, false⟩ := by
  cases d
  · rfl
  · rfl
  · exact absurd rfl h

theorem next_quiet (d : Device) (stb : Bool) (r : DeviceRegs) :
    d.next false stb r = ⟨false, false⟩ := by
  cases d <;> simp [Device.next, Device.ackNext, Device.errNext]

/-- Only the device of a request in clock 1 will answer. -/
theorem Phase.devices_next (h : Phase slots k s) (j : Slot) :
    (next i s slots).devices j = ⟨k == 1 && j == selnum s, false⟩ := by
  have hbound := h.bound
  have hcyc : slotCyc s j = (k != 0 && j == selnum s && !(k == 3)) := by
    rw [slotCyc, transValid, h.cyc, h.ackint]
  show (slots j).next (slotCyc s j) (slotStb s j) (s.devices j) = _
  by_cases hasked : slotCyc s j = true
  · -- the request is for this device, and not at the master yet
    have hparts := hcyc.symm.trans hasked
    simp only [Bool.and_eq_true, bne_iff_ne, beq_iff_eq, Bool.not_eq_true',
      beq_eq_false_iff_ne] at hparts
    obtain ⟨⟨hk, hj⟩, h3⟩ := hparts
    have hstb : slotStb s j = true := by
      simp [slotStb, transValid, h.stb hk, h.ackint, hj, h3]
    rw [hj] at hasked hstb ⊢
    rw [next_answers (h.device hk), h.devices, hasked, hstb]
    interval_cases k <;> simp_all
  · rw [Bool.not_eq_true] at hasked
    rw [hasked, next_quiet]
    rw [hcyc] at hasked
    interval_cases k <;> simp_all

theorem Phase.ackint_next (h : Phase slots k s) : (next i s slots).ackint = (k == 2) := by
  show (s.devices (selnum s)).ack = _
  rw [h.devices]
  simp

theorem Phase.err_next (h : Phase slots k s) : (next i s slots).err = false := by
  show (s.devices (selnum s)).err = _
  rw [h.devices]

def phaseNext (accepted : Bool) (k : Nat) : Nat := if k = 0 then accepted.toNat else (k + 1) % 4

theorem Phase.next_idle (h : Phase slots 0 s)
    (hok : accepted i s = true → slots (slotOf i.mwbi) ≠ .nodev) :
    Phase slots (accepted i s).toNat (next i s slots) := by
  have hbridge : (next i s slots).waitForAck = (bridgeIdle i s).waitForAck ∧
      (next i s slots).wo = (bridgeIdle i s).wo ∧
      (next i s slots).stall = (bridgeIdle i s).stall := by
    simp [next, h.waitForAck]
  have hquiet : ∀ j, (next i s slots).devices j = ⟨false, false⟩ := fun j => h.devices_next j
  cases hacc : accepted i s with
  | false =>
    have hsame : bridgeIdle i s = s := by
      have hno : (i.mwbi.cyc && i.mwbi.stb) = false := by
        simpa [accepted, h.stall] using hacc
      rw [bridgeIdle, hno]
      rfl
    rw [hsame] at hbridge
    exact {
      bound := by decide
      waitForAck := hbridge.1.trans h.waitForAck
      stall := hbridge.2.2.trans h.stall
      cyc := by rw [hbridge.2.1]; exact h.cyc
      stb := fun h' => absurd rfl h'
      device := fun h' => absurd rfl h'
      ackint := h.ackint_next
      err := h.err_next
      devices := hquiet }
  | true =>
    have hyes : (i.mwbi.cyc && i.mwbi.stb) = true := by
      simpa [accepted, h.stall] using hacc
    have htaken : bridgeIdle i s =
        { s with waitForAck := true, wo := i.mwbi, stall := true } := by
      rw [bridgeIdle, hyes]
      rfl
    rw [htaken] at hbridge
    have hparts := hyes
    simp only [Bool.and_eq_true] at hparts
    exact {
      bound := by decide
      waitForAck := hbridge.1
      stall := hbridge.2.2
      cyc := by rw [hbridge.2.1]; exact hparts.1
      stb := fun _ => by rw [hbridge.2.1]; exact hparts.2
      device := fun _ => by rw [selnum, hbridge.2.1]; exact hok hacc
      ackint := h.ackint_next
      err := h.err_next
      devices := hquiet }

theorem Phase.next_waiting (h : Phase slots k s) (hk : k ≠ 0) :
    Phase slots ((k + 1) % 4) (next i s slots) := by
  have hbound := h.bound
  have hwait : s.waitForAck = true := by
    rw [h.waitForAck]
    simpa using hk
  have hbridge : (next i s slots).waitForAck = (bridgeWait s).waitForAck ∧
      (next i s slots).wo = (bridgeWait s).wo ∧
      (next i s slots).stall = (bridgeWait s).stall := by
    simp [next, hwait]
  by_cases h3 : k = 3
  · subst h3
    have hends : bridgeWait s = { s with
        waitForAck := false, wo := { s.wo with cyc := false, stb := false }, stall := false } := by
      rw [bridgeWait, h.ackint]
      rfl
    rw [hends] at hbridge
    exact {
      bound := by decide
      waitForAck := hbridge.1
      stall := hbridge.2.2
      cyc := by rw [hbridge.2.1]; rfl
      stb := fun h' => absurd rfl h'
      device := fun h' => absurd rfl h'
      ackint := h.ackint_next
      err := h.err_next
      devices := fun j => h.devices_next j }
  · have hsame : bridgeWait s = s := by
      have hno : s.ackint = false := by
        rw [h.ackint]
        simpa using h3
      rw [bridgeWait, hno, h.err]
      rfl
    rw [hsame] at hbridge
    have hnext : (k + 1) % 4 = k + 1 := by omega
    have hsel : selnum (IoChain.next i s slots) = selnum s := by rw [selnum, hbridge.2.1, selnum]
    rw [hnext]
    exact {
      bound := by omega
      waitForAck := hbridge.1.trans (h.waitForAck.trans (by simp [hk]))
      stall := hbridge.2.2.trans (h.stall.trans (by simp [hk]))
      cyc := by
        rw [hbridge.2.1, h.cyc]
        simp [hk]
      stb := fun _ => by rw [hbridge.2.1]; exact h.stb hk
      device := fun _ => by rw [hsel]; exact h.device hk
      ackint := by rw [h.ackint_next]; simp
      err := h.err_next
      devices := fun j => by rw [h.devices_next j, hsel]; simp }

theorem Phase.next (h : Phase slots k s)
    (hok : accepted i s = true → slots (slotOf i.mwbi) ≠ .nodev) :
    Phase slots (phaseNext (accepted i s) k) (next i s slots) := by
  by_cases hk : k = 0
  · subst hk
    exact h.next_idle hok
  · rw [phaseNext, if_neg hk]
    exact h.next_waiting hk

theorem Phase.wo_accepted (h : Phase slots 0 s) (hacc : accepted i s = true) :
    (IoChain.next i s slots).wo = i.mwbi := by
  have hwait : s.waitForAck = false := h.waitForAck
  have hyes : (i.mwbi.cyc && i.mwbi.stb) = true := by
    simpa [accepted, h.stall] using hacc
  simp only [IoChain.next, hwait, bridgeIdle, hyes, if_true, Bool.false_eq_true, if_false]

theorem Phase.wo_kept (h : Phase slots k s) (hk : k = 1 ∨ k = 2) :
    (IoChain.next i s slots).wo = s.wo := by
  have hwait : s.waitForAck = true := by
    rw [h.waitForAck]
    rcases hk with rfl | rfl <;> rfl
  have hno : (s.ackint || s.err) = false := by
    rw [h.ackint, h.err]
    rcases hk with rfl | rfl <;> rfl
  simp only [IoChain.next, hwait, bridgeWait, hno, if_true, Bool.false_eq_true, if_false]

/-- The strobe of a slot is up in clocks 1 and 2 of a request for it. -/
theorem Phase.strobe (h : Phase slots k s) (j : Slot) :
    (slotCyc s j && slotStb s j) = ((k == 1 || k == 2) && j == selnum s) := by
  have hbound := h.bound
  rw [slotCyc, slotStb, transValid, h.cyc, h.ackint]
  by_cases hk : k = 0
  · simp [hk]
  · rw [h.stb hk]
    interval_cases k <;> simp_all

end Clock

/-! ## Runs -/

section Runs

variable (slots : Slot → Device) (s₀ : IoChain) (inputs : Nat → IoChainInput)

def takes (n : Nat) : Bool := accepted (inputs n) (run slots s₀ inputs n)

def age : Nat → Nat
  | 0 => 0
  | n + 1 => phaseNext (takes slots s₀ inputs n) (age n)

variable {slots : Slot → Device} {s₀ : IoChain} {inputs : Nat → IoChainInput}

theorem phase_run (hreset : Reset s₀)
    (hok : ∀ n, takes slots s₀ inputs n = true → slots (slotOf (inputs n).mwbi) ≠ .nodev)
    (n : Nat) : Phase slots (age slots s₀ inputs n) (run slots s₀ inputs n) := by
  induction n with
  | zero => exact hreset.phase slots
  | succ n ih => exact ih.next (hok n)

theorem phaseNext_eq_succ {b : Bool} {j k : Nat} (hk : k < 4) (h : phaseNext b k = j + 2) :
    k = j + 1 := by
  unfold phaseNext at h
  split at h
  · have := b.toNat_le
    omega
  · omega

theorem phaseNext_eq_one {b : Bool} {k : Nat} (hk : k < 4) (h : phaseNext b k = 1) : b = true := by
  unfold phaseNext at h
  split at h
  · exact Bool.toNat_eq_one.mp h
  · omega

theorem age_eq_three (hage : ∀ n, age slots s₀ inputs n < 4)
    (htakes : ∀ n, takes slots s₀ inputs n = true → age slots s₀ inputs n = 0) (n : Nat) :
    age slots s₀ inputs n = 3 ↔ ∃ m, n = m + 3 ∧ takes slots s₀ inputs m = true := by
  constructor
  · intro h3
    -- back through clocks 2 and 1 to the clock that took the request
    obtain ⟨a, rfl⟩ : ∃ a, n = a + 1 := Nat.exists_eq_succ_of_ne_zero (by rintro rfl; cases h3)
    have h2 := phaseNext_eq_succ (hage a) h3
    obtain ⟨b, rfl⟩ : ∃ b, a = b + 1 := Nat.exists_eq_succ_of_ne_zero (by rintro rfl; cases h2)
    have h1 := phaseNext_eq_succ (hage b) h2
    obtain ⟨c, rfl⟩ : ∃ c, b = c + 1 := Nat.exists_eq_succ_of_ne_zero (by rintro rfl; cases h1)
    exact ⟨c, rfl, phaseNext_eq_one (hage c) h1⟩
  · rintro ⟨m, rfl, hm⟩
    have h1 : age slots s₀ inputs (m + 1) = 1 := by
      rw [age, phaseNext, if_pos (htakes m hm), hm]
      rfl
    have h2 : age slots s₀ inputs (m + 2) = 2 := by
      rw [age, phaseNext, h1]
      rfl
    rw [age, phaseNext, h2]
    rfl

/-- Without a request for an empty slot, every request is acknowledged three clocks after it is
taken, and no other clock has an answer. -/
theorem answered_once (slots : Slot → Device) (s₀ : IoChain) (inputs : Nat → IoChainInput)
    (hreset : Reset s₀)
    (hok : ∀ n, takes slots s₀ inputs n = true → slots (slotOf (inputs n).mwbi) ≠ .nodev)
    (n : Nat) :
    ((mwbo (run slots s₀ inputs n)).ack = true ↔
      ∃ m, n = m + 3 ∧ takes slots s₀ inputs m = true) ∧
    (mwbo (run slots s₀ inputs n)).err = false := by
  have hphase := phase_run hreset hok
  have htakes : ∀ n, takes slots s₀ inputs n = true → age slots s₀ inputs n = 0 := by
    intro n h
    have hstall : (run slots s₀ inputs n).stall = false := by
      simp only [takes, accepted, Bool.and_eq_true, Bool.not_eq_true'] at h
      exact h.2
    rw [(hphase n).stall] at hstall
    simpa using hstall
  refine ⟨?_, (hphase n).err⟩
  rw [← age_eq_three (fun n => (hphase n).bound) htakes, mwbo, (hphase n).ackint, beq_iff_eq]

/-- A device of each kind; the other slots are empty. -/
def threeSlots (k : Slot) : Device :=
  if k = 0 then .uart else if k = 1 then .sinkdev else .nodev

def quiet : IoChain where
  waitForAck := false
  stall := false
  wo := .idle
  ackint := false
  err := false
  dat := 0
  tag := 0
  tagi := 0
  devices := fun _ => ⟨false, false⟩

theorem quiet_reset : Reset quiet := ⟨rfl, rfl, rfl, rfl, rfl, fun _ => rfl⟩

/-- One read after the other of the slot with the `sinkdev`. -/
theorem answered_once_sinkdev :
    (mwbo (run threeSlots quiet (fun _ => ⟨.reading 0x10000000, fun _ => 0⟩) 3)).ack = true := by
  have hok : ∀ n, takes threeSlots quiet (fun _ => ⟨.reading 0x10000000, fun _ => 0⟩) n = true →
      threeSlots (slotOf (.reading 0x10000000)) ≠ .nodev := fun _ _ => by decide
  exact (answered_once threeSlots quiet _ quiet_reset hok 3).1.mpr ⟨0, rfl, rfl⟩

def readEmpty (n : Nat) : IoChainInput :=
  ⟨if n = 0 then .reading 0x20000000 else .idle, fun _ => 0⟩

theorem readEmpty_answered_twice :
    (List.range 6).map (takes threeSlots quiet readEmpty) =
        [true, false, false, false, false, false] ∧
      (List.range 6).map (fun n => (mwbo (run threeSlots quiet readEmpty n)).err) =
        [false, false, false, true, false, true] := by
  decide

end Runs

end IoChain

end Xtc
