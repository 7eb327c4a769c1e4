import Xtc.Bus.IoChain
import Xtc.Uart.Fifo

/-!
# Read — the data and status registers of `uart.vhd` behind the bridge and the I/O controller

The byte of a data read leaves the FIFO by the strobe of the read.  The controller masks the strobe
only when the answer has come back to it, so that it is up for two clocks.
-/

namespace Xtc.Uart

/-! ## The registers -/

/-- What the other parts of the UART drive in a clock: the receiver, the transmitter, the interrupt
and the timers. -/
structure ReadInput where
  dready : Bool
  receivedData : BitVec 8
  busy : Bool
  intx : Bool
  intEnabled : Bool
  tsc : Word
  millis : Word

structure ReadSide (bits : Nat) where
  fifo : Fifo bits 8
  dat : Word

def fifoRd (wbi : Mosi) : Bool :=
  wbi.adr.extractLsb 3 2 == 0 && (wbi.cyc && wbi.stb && !wbi.we)

namespace ReadSide

variable {bits : Nat} (wbi : Mosi) (i : ReadInput) (r : ReadSide bits)

def datNext : Word :=
  if wbi.adr.extractLsb 3 2 = 1 then
    0#28 ++ BitVec.ofBool i.intEnabled ++ BitVec.ofBool i.intx ++ BitVec.ofBool i.busy ++
      BitVec.ofBool (!r.fifo.empty)
  else if wbi.adr.extractLsb 3 2 = 0 then r.fifo.read.setWidth 32
  else if wbi.adr.extractLsb 3 2 = 3 then i.tsc
  else i.millis

def next : ReadSide bits where
  fifo := r.fifo.next ⟨i.dready, fifoRd wbi, i.receivedData⟩
  dat := datNext wbi i r

end ReadSide

/-! ## The UART in its slot -/

structure IoInput where
  mwbi : Mosi
  -- the data of the other slots
  dat : Slot → Word
  uart : ReadInput

structure Io (bits : Nat) where
  chain : IoChain
  uart : ReadSide bits

namespace Io

section Signals

variable {bits : Nat} (slots : Slot → Device) (u : Slot) (i : IoInput) (s : Io bits)

def chainInput : IoChainInput := ⟨i.mwbi, fun k => if k = u then s.uart.dat else i.dat k⟩

def wbi : Mosi := { s.chain.wo with cyc := s.chain.slotCyc u, stb := s.chain.slotStb u }

def next : Io bits where
  chain := IoChain.next (chainInput u i s) s.chain slots
  uart := s.uart.next (wbi u s) i.uart

structure Reset (s : Io bits) : Prop where
  chain : s.chain.Reset
  wraddr : s.uart.fifo.wraddr = 0
  rdaddr : s.uart.fifo.rdaddr = 0

def reads (reg : BitVec 2) (m : Mosi) : Bool :=
  IoChain.slotOf m == u && m.adr.extractLsb 3 2 == reg && !m.we

def readsData (m : Mosi) : Bool := reads u 0 m

def readsStatus (m : Mosi) : Bool := reads u 1 m

def takes : Bool := IoChain.accepted (chainInput u i s) s.chain

def returns : Option (BitVec 8) :=
  if (IoChain.mwbo s.chain).ack && readsData u s.chain.wo then
    some ((IoChain.mwbo s.chain).dat.setWidth 8)
  else none

def received : Option (BitVec 8) := if i.uart.dready then some i.uart.receivedData else none

/-- The byte of a data read on its way to the bus, in clock `k` of the request. -/
def holding (k : Nat) : List (BitVec 8) :=
  if readsData u s.chain.wo then
    if k = 2 then [s.uart.dat.setWidth 8] else if k = 3 then [s.chain.dat.setWidth 8] else []
  else []

/-- What the second clock of the strobe takes out of the FIFO. -/
def dropped (k : Nat) : List (BitVec 8) :=
  if readsData u s.chain.wo && k == 2 then s.uart.fifo.contents.take 1 else []

end Signals

section Clock

variable {bits : Nat} {slots : Slot → Device} {u : Slot} {i : IoInput} {s : Io bits} {k : Nat}

theorem fifoRd_eq (h : IoChain.Phase slots k s.chain) :
    fifoRd (wbi u s) = (readsData u s.chain.wo && (k == 1 || k == 2)) := by
  have hstrobe := h.strobe u
  show (s.chain.wo.adr.extractLsb 3 2 == 0 &&
    (s.chain.slotCyc u && s.chain.slotStb u && !s.chain.wo.we)) = _
  rw [hstrobe, readsData, reads, IoChain.selnum, IoChain.slotOf, Bool.beq_comm (a := u)]
  cases (s.chain.wo.adr.extractLsb 3 2 == 0) <;> cases s.chain.wo.we <;>
    cases (k == 1 || k == 2) <;> simp

theorem contents_next (h : IoChain.Phase slots k s.chain)
    (hroom : i.uart.dready = true → s.uart.fifo.fullV = false) :
    (next slots u i s).uart.fifo.contents =
      (if readsData u s.chain.wo && (k == 1 || k == 2) then s.uart.fifo.contents.tail
        else s.uart.fifo.contents) ++ (received i).toList := by
  have hwritten :
      s.uart.fifo.written ⟨i.uart.dready, fifoRd (wbi u s), i.uart.receivedData⟩ = received i := by
    unfold Fifo.written received
    cases hwr : i.uart.dready with
    | false => rfl
    | true => simp [hroom hwr]
  rw [← hwritten, ← fifoRd_eq h]
  exact Fifo.contents_next

theorem holding_eq_nil (hk : k ≤ 1) : holding u s k = [] := by
  unfold holding
  rw [if_neg (by omega : ¬ k = 2), if_neg (by omega : ¬ k = 3), ite_self]

theorem holding_of_not_reads (h : readsData u s.chain.wo = false) : holding u s k = [] := by
  rw [holding, h]
  rfl

theorem uart_dat_next (h : readsData u s.chain.wo = true) :
    (next slots u i s).uart.dat = s.uart.fifo.read.setWidth 32 := by
  have hreg : s.chain.wo.adr.extractLsb 3 2 = 0 := by
    simp only [readsData, reads, Bool.and_eq_true, beq_iff_eq] at h
    exact h.1.2
  show (if s.chain.wo.adr.extractLsb 3 2 = 1 then _ else
    if s.chain.wo.adr.extractLsb 3 2 = 0 then _ else _) = _
  rw [hreg, if_neg (by decide), if_pos rfl]

theorem chain_dat_next (h : IoChain.slotOf s.chain.wo = u) :
    (next slots u i s).chain.dat = s.uart.dat :=
  if_pos h

theorem slot_of_reads {reg : BitVec 2} {m : Mosi} (h : reads u reg m = true) :
    IoChain.slotOf m = u := by
  simp only [reads, Bool.and_eq_true, beq_iff_eq] at h
  exact h.1.1

/-- A clock: what is under way and in the FIFO, and what is received, is what is returned, what is
then under way, what the second clock of the strobe has dropped, and what is then in the FIFO. -/
theorem conserves (h : IoChain.Phase slots k s.chain)
    (hroom : i.uart.dready = true → s.uart.fifo.fullV = false)
    (hhead : k = 1 → readsData u s.chain.wo = true →
      s.uart.fifo.contents.head? = some s.uart.fifo.read) :
    holding u s k ++ s.uart.fifo.contents ++ (received i).toList =
      (returns u s).toList ++
        holding u (next slots u i s) (IoChain.phaseNext (takes u i s) k) ++
        dropped u s k ++ (next slots u i s).uart.fifo.contents := by
  have hbound := h.bound
  rw [contents_next h hroom]
  have hack : (IoChain.mwbo s.chain).ack = (k == 3) := h.ackint
  by_cases h0 : k = 0
  · subst h0
    have hnext : IoChain.phaseNext (takes u i s) 0 ≤ 1 := (takes u i s).toNat_le
    rw [holding_eq_nil hnext, holding_eq_nil (by omega), returns, hack, dropped]
    simp
  by_cases h3 : k = 3
  · subst h3
    rw [holding_eq_nil (show IoChain.phaseNext (takes u i s) 3 ≤ 1 from Nat.zero_le _), returns,
      hack, dropped]
    cases hreads : readsData u s.chain.wo with
    | false => simp [holding, hreads]
    | true => simp [holding, hreads, IoChain.mwbo]
  have hk : k = 1 ∨ k = 2 := by omega
  have hwo : (next slots u i s).chain.wo = s.chain.wo := h.wo_kept hk
  have hnext : IoChain.phaseNext (takes u i s) k = k + 1 := by
    rw [IoChain.phaseNext, if_neg h0]
    omega
  have hreturns : returns u s = none := by
    rw [returns, hack]
    simp [h3]
  rw [hnext, hreturns]
  cases hreads : readsData u s.chain.wo with
  | false =>
    rw [holding_of_not_reads hreads, holding_of_not_reads (by rw [hwo]; exact hreads), dropped,
      hreads]
    simp
  | true =>
    have hpop : (true && (k == 1 || k == 2)) = true := by
      rcases hk with rfl | rfl <;> rfl
    rw [hpop, if_pos rfl]
    rcases hk with rfl | rfl
    · -- the byte goes from the FIFO to the data register
      have hcontents : s.uart.fifo.contents = s.uart.fifo.read :: s.uart.fifo.contents.tail :=
        (List.cons_head?_tail (hhead rfl hreads)).symm
      have hholding : holding u (next slots u i s) 2 = [s.uart.fifo.read] := by
        rw [holding, hwo, hreads, if_pos rfl, if_pos rfl, uart_dat_next hreads]
        simp
      rw [holding_eq_nil le_rfl, hholding, dropped, hreads, hcontents]
      simp
    · have hholding : holding u (next slots u i s) 3 = holding u s 2 := by
        rw [holding, holding, hwo, hreads, if_pos rfl, if_pos rfl, if_neg (by decide), if_pos rfl,
          if_pos rfl, chain_dat_next (slot_of_reads hreads)]
      have hsplit : s.uart.fifo.contents =
          s.uart.fifo.contents.take 1 ++ s.uart.fifo.contents.tail := by
        rw [← List.drop_one, List.take_append_drop]
      rw [hholding, dropped, hreads]
      simp only [Bool.true_and, beq_self_eq_true, if_true, Option.toList_none, List.nil_append]
      conv_lhs => rw [hsplit]
      simp only [List.append_assoc]

theorem uart_status_next (h : readsStatus u s.chain.wo = true) :
    (next slots u i s).uart.dat.getLsbD 0 = !s.uart.fifo.empty := by
  have hreg : s.chain.wo.adr.extractLsb 3 2 = 1 := by
    simp only [readsStatus, reads, Bool.and_eq_true, beq_iff_eq] at h
    exact h.1.2
  show BitVec.getLsbD (if s.chain.wo.adr.extractLsb 3 2 = 1 then _ else _) 0 = _
  rw [if_pos hreg, BitVec.getLsbD_append]
  simp

theorem readsData_of_readsStatus {m : Mosi} (h : readsStatus u m = true) :
    readsData u m = false := by
  simp only [readsStatus, reads, Bool.and_eq_true, beq_iff_eq] at h
  rw [readsData, reads, h.1.2]
  simp

end Clock

/-! ## Runs -/

section Runs

variable {bits : Nat} (slots : Slot → Device) (u : Slot) (s : Io bits) (inputs : Nat → IoInput)

def after (n : Nat) : Io bits := Run.states (next slots u) s inputs n

def chainInputs (n : Nat) : IoChainInput := chainInput u (inputs n) (after slots u s inputs n)

def phase (n : Nat) : Nat := IoChain.age slots s.chain (chainInputs slots u s inputs) n

def takesAt (n : Nat) : Bool := takes u (inputs n) (after slots u s inputs n)

def TakesData (n : Nat) : Prop :=
  takesAt slots u s inputs n = true ∧ readsData u (inputs n).mwbi = true

def TakesStatus (n : Nat) : Prop :=
  takesAt slots u s inputs n = true ∧ readsStatus u (inputs n).mwbi = true

def receivedBefore (n : Nat) : List (BitVec 8) := Run.events (fun k => received (inputs k)) 0 n

def returnedBefore (n : Nat) : List (BitVec 8) :=
  Run.events (fun k => returns u (after slots u s inputs k)) 0 n

/-- A run in which the FIFO has room for every byte and every data read follows a status read of its
own that has shown a byte. -/
structure Polls : Prop where
  reset : s.Reset
  uart : slots u = .uart
  devices : ∀ n, takesAt slots u s inputs n = true →
    slots (IoChain.slotOf (inputs n).mwbi) ≠ .nodev
  room : ∀ n, (inputs n).uart.dready = true → (after slots u s inputs n).uart.fifo.fullV = false
  polled : ∀ m, TakesData slots u s inputs m → ∃ p < m, TakesStatus slots u s inputs p ∧
    (IoChain.mwbo (after slots u s inputs (p + 3)).chain).dat.getLsbD 0 = true ∧
    ∀ k, p < k → k < m → ¬ TakesData slots u s inputs k

variable {slots u s inputs}

theorem chain_after (n : Nat) : (after slots u s inputs n).chain =
    IoChain.run slots s.chain (chainInputs slots u s inputs) n := by
  induction n with
  | zero => rfl
  | succ n ih =>
    show IoChain.next (chainInputs slots u s inputs n) (after slots u s inputs n).chain slots = _
    rw [ih]
    rfl

theorem takes_chain (n : Nat) :
    IoChain.takes slots s.chain (chainInputs slots u s inputs) n = takesAt slots u s inputs n := by
  rw [IoChain.takes, ← chain_after]
  rfl

theorem receivedBefore_succ (n : Nat) :
    receivedBefore inputs (n + 1) = receivedBefore inputs n ++ (received (inputs n)).toList := by
  rw [receivedBefore, Run.events_succ, Nat.zero_add, receivedBefore]

theorem returnedBefore_succ (n : Nat) : returnedBefore slots u s inputs (n + 1) =
    returnedBefore slots u s inputs n ++ (returns u (after slots u s inputs n)).toList := by
  rw [returnedBefore, Run.events_succ, Nat.zero_add, returnedBefore]

theorem phase_succ (n : Nat) : phase slots u s inputs (n + 1) =
    IoChain.phaseNext (takesAt slots u s inputs n) (phase slots u s inputs n) := by
  rw [← takes_chain]
  rfl

namespace Polls

variable (h : Polls slots u s inputs) {m n : Nat}

include h

theorem phases (n : Nat) :
    IoChain.Phase slots (phase slots u s inputs n) (after slots u s inputs n).chain := by
  rw [chain_after]
  refine IoChain.phase_run h.reset.chain (fun k hk => ?_) n
  rw [takes_chain] at hk
  exact h.devices k hk

theorem phase_of_takes (ht : takesAt slots u s inputs n = true) : phase slots u s inputs n = 0 := by
  simp only [takesAt, takes, IoChain.accepted, Bool.and_eq_true, Bool.not_eq_true'] at ht
  have hstall := ht.2
  rw [(h.phases n).stall] at hstall
  simpa using hstall

theorem phase_one (ht : takesAt slots u s inputs n = true) :
    phase slots u s inputs (n + 1) = 1 := by
  rw [phase_succ, h.phase_of_takes ht, ht]
  rfl

theorem phase_two (ht : takesAt slots u s inputs n = true) :
    phase slots u s inputs (n + 2) = 2 := by
  rw [phase_succ, h.phase_one ht]
  rfl

theorem phase_three (ht : takesAt slots u s inputs n = true) :
    phase slots u s inputs (n + 3) = 3 := by
  rw [phase_succ, h.phase_two ht]
  rfl

theorem phase_four (ht : takesAt slots u s inputs n = true) :
    phase slots u s inputs (n + 4) = 0 := by
  rw [phase_succ, h.phase_three ht]
  rfl

theorem wo_one (ht : takesAt slots u s inputs n = true) :
    (after slots u s inputs (n + 1)).chain.wo = (inputs n).mwbi := by
  have hphase := h.phases n
  rw [h.phase_of_takes ht] at hphase
  exact hphase.wo_accepted ht

theorem wo_succ (hk : phase slots u s inputs n = 1 ∨ phase slots u s inputs n = 2) :
    (after slots u s inputs (n + 1)).chain.wo = (after slots u s inputs n).chain.wo :=
  (h.phases n).wo_kept hk

theorem wo_two (ht : takesAt slots u s inputs n = true) :
    (after slots u s inputs (n + 2)).chain.wo = (inputs n).mwbi :=
  (h.wo_succ (.inl (h.phase_one ht))).trans (h.wo_one ht)

/-- A status read shows the FIFO of the clock in which it is taken. -/
theorem status (ht : TakesStatus slots u s inputs n) :
    (IoChain.mwbo (after slots u s inputs (n + 3)).chain).dat.getLsbD 0 =
      !(after slots u s inputs n).uart.fifo.emptyV := by
  have hslot : IoChain.slotOf (after slots u s inputs (n + 2)).chain.wo = u := by
    rw [h.wo_two ht.1]
    exact slot_of_reads ht.2
  have hdat : (after slots u s inputs (n + 3)).chain.dat =
      (after slots u s inputs (n + 2)).uart.dat := chain_dat_next hslot
  have hreads : readsStatus u (after slots u s inputs (n + 1)).chain.wo = true := by
    rw [h.wo_one ht.1]
    exact ht.2
  show (after slots u s inputs (n + 3)).chain.dat.getLsbD 0 = _
  rw [hdat]
  exact uart_status_next hreads

theorem contents_succ (n : Nat) : (after slots u s inputs (n + 1)).uart.fifo.contents =
    (if readsData u (after slots u s inputs n).chain.wo &&
        (phase slots u s inputs n == 1 || phase slots u s inputs n == 2) then
      (after slots u s inputs n).uart.fifo.contents.tail
    else (after slots u s inputs n).uart.fifo.contents) ++ (received (inputs n)).toList :=
  contents_next (h.phases n) (h.room n)

/-- Bytes stay in the FIFO while no data read is taken. -/
theorem stays {p : Nat} (hp : TakesStatus slots u s inputs p)
    (hne : (after slots u s inputs p).uart.fifo.contents ≠ [])
    (hno : ∀ k, p < k → k < m → ¬ TakesData slots u s inputs k) (d : Nat) (hd : p + d ≤ m) :
    (after slots u s inputs (p + d)).uart.fifo.contents ≠ [] ∧
    (phase slots u s inputs (p + d) ≠ 0 →
      readsData u (after slots u s inputs (p + d)).chain.wo = false) := by
  induction d with
  | zero => exact ⟨hne, fun h0 => absurd (h.phase_of_takes hp.1) h0⟩
  | succ d ih =>
    obtain ⟨hcontents, hreads⟩ := ih (by omega)
    have hbound := (h.phases (p + d)).bound
    by_cases h0 : phase slots u s inputs (p + d) = 0
    · constructor
      · rw [← Nat.add_assoc, h.contents_succ, h0]
        simp [hcontents]
      · rw [← Nat.add_assoc, phase_succ, h0]
        intro htaken
        have ht : takesAt slots u s inputs (p + d) = true := by
          cases ht : takesAt slots u s inputs (p + d) with
          | true => rfl
          | false => exact absurd (by rw [ht]; rfl) htaken
        rw [h.wo_one ht]
        cases hdata : readsData u (inputs (p + d)).mwbi with
        | false => rfl
        | true =>
          cases d with
          | zero =>
            rw [Nat.add_zero, readsData_of_readsStatus hp.2] at hdata
            cases hdata
          | succ d => exact absurd ⟨ht, hdata⟩ (hno _ (by omega) (by omega))
    · constructor
      · rw [← Nat.add_assoc, h.contents_succ, hreads h0]
        simp [hcontents]
      · intro hnext
        by_cases h3 : phase slots u s inputs (p + d) = 3
        · rw [← Nat.add_assoc, phase_succ, h3] at hnext
          exact absurd rfl hnext
        · rw [← Nat.add_assoc, h.wo_succ (by omega)]
          exact hreads h0

/-- A data read finds a byte. -/
theorem available (ht : TakesData slots u s inputs n) :
    (after slots u s inputs n).uart.fifo.contents ≠ [] := by
  obtain ⟨p, hlt, hp, hshown, hno⟩ := h.polled n ht
  rw [h.status hp, Bool.not_eq_true', ← Bool.not_eq_true, Fifo.emptyV_iff] at hshown
  have := (h.stays hp hshown hno (n - p) (by omega)).1
  rwa [Nat.add_sub_cancel' (by omega)] at this

theorem head (h1 : phase slots u s inputs n = 1)
    (hreads : readsData u (after slots u s inputs n).chain.wo = true) :
    (after slots u s inputs n).uart.fifo.contents.head? =
      some (after slots u s inputs n).uart.fifo.read := by
  cases n with
  | zero => cases h1
  | succ n =>
    rw [phase_succ] at h1
    have ht := IoChain.phaseNext_eq_one (h.phases n).bound h1
    rw [h.wo_one ht] at hreads
    have hne := h.available ⟨ht, hreads⟩
    have hread : (after slots u s inputs n).uart.fifo.contents.head? =
        some (after slots u s inputs (n + 1)).uart.fifo.read := Fifo.read_next hne
    rw [h.contents_succ, h.phase_of_takes ht, ← hread]
    simp [List.head?_append, hread]

theorem conserves_at (n : Nat) :
    holding u (after slots u s inputs n) (phase slots u s inputs n) ++
        (after slots u s inputs n).uart.fifo.contents ++ (received (inputs n)).toList =
      (returns u (after slots u s inputs n)).toList ++
        holding u (after slots u s inputs (n + 1)) (phase slots u s inputs (n + 1)) ++
        dropped u (after slots u s inputs n) (phase slots u s inputs n) ++
        (after slots u s inputs (n + 1)).uart.fifo.contents := by
  rw [phase_succ]
  exact conserves (h.phases n) (h.room n) h.head

/-- Only the second clock of the strobe of a data read drops a byte. -/
theorem dropped_eq_nil
    (hempty : ∀ m, TakesData slots u s inputs m →
      (after slots u s inputs (m + 2)).uart.fifo.contents = []) (n : Nat) :
    dropped u (after slots u s inputs n) (phase slots u s inputs n) = [] := by
  unfold dropped
  by_cases hdrop : (readsData u (after slots u s inputs n).chain.wo &&
      phase slots u s inputs n == 2) = true
  · rw [if_pos hdrop]
    simp only [Bool.and_eq_true, beq_iff_eq] at hdrop
    obtain ⟨hreads, h2⟩ := hdrop
    -- back to the clock that took the read
    obtain ⟨a, rfl⟩ : ∃ a, n = a + 1 := Nat.exists_eq_succ_of_ne_zero (by rintro rfl; cases h2)
    rw [phase_succ] at h2
    have h1 := IoChain.phaseNext_eq_succ (h.phases a).bound h2
    obtain ⟨m, rfl⟩ : ∃ m, a = m + 1 := Nat.exists_eq_succ_of_ne_zero (by rintro rfl; cases h1)
    rw [phase_succ] at h1
    have ht := IoChain.phaseNext_eq_one (h.phases m).bound h1
    rw [h.wo_two ht] at hreads
    rw [hempty m ⟨ht, hreads⟩]
    rfl
  · rw [if_neg hdrop]

theorem received_eq
    (hempty : ∀ m, TakesData slots u s inputs m →
      (after slots u s inputs (m + 2)).uart.fifo.contents = []) (n : Nat) :
    receivedBefore inputs n = returnedBefore slots u s inputs n ++
      (holding u (after slots u s inputs n) (phase slots u s inputs n) ++
        (after slots u s inputs n).uart.fifo.contents) := by
  obtain ⟨p, hp, hsum⟩ := Run.conservation (n := 0) (d := n) (fun k => received (inputs k))
    (fun k => returns u (after slots u s inputs k))
    (fun k p => p = holding u (after slots u s inputs k) (phase slots u s inputs k) ++
      (after slots u s inputs k).uart.fifo.contents) rfl fun k _ _ p hp => by
    have hstep := h.conserves_at k
    rw [h.dropped_eq_nil hempty, List.append_nil, List.append_assoc _ (holding _ _ _)] at hstep
    exact ⟨_, rfl, by rw [hp, hstep]⟩
  have hnil : holding u s 0 ++ s.uart.fifo.contents = [] := by
    rw [holding_eq_nil (by omega), List.nil_append, Fifo.contents_eq_nil_iff, h.reset.rdaddr,
      h.reset.wraddr]
  have hstart : holding u (after slots u s inputs 0) (phase slots u s inputs 0) ++
      (after slots u s inputs 0).uart.fifo.contents = [] := hnil
  rw [hstart, List.nil_append, hp, Nat.zero_add] at hsum
  exact hsum

/-- The clocks of a data read, in numbers of bytes. -/
theorem length_read (ht : TakesData slots u s inputs m) :
    (after slots u s inputs m).uart.fifo.contents.length + (receivedBefore inputs (m + 4)).length +
        (returnedBefore slots u s inputs m).length =
      (after slots u s inputs (m + 4)).uart.fifo.contents.length +
        (receivedBefore inputs m).length + (returnedBefore slots u s inputs (m + 4)).length +
        ((after slots u s inputs (m + 2)).uart.fifo.contents.take 1).length := by
  have hstep : ∀ n, (holding u (after slots u s inputs n) (phase slots u s inputs n)).length +
      (after slots u s inputs n).uart.fifo.contents.length +
      (receivedBefore inputs (n + 1)).length + (returnedBefore slots u s inputs n).length =
      (receivedBefore inputs n).length + (returnedBefore slots u s inputs (n + 1)).length +
      (holding u (after slots u s inputs (n + 1)) (phase slots u s inputs (n + 1))).length +
      (dropped u (after slots u s inputs n) (phase slots u s inputs n)).length +
      (after slots u s inputs (n + 1)).uart.fifo.contents.length := by
    intro n
    have hlength := congrArg List.length (h.conserves_at n)
    simp only [List.length_append] at hlength
    rw [receivedBefore_succ, returnedBefore_succ, List.length_append, List.length_append]
    omega
  have hdropped : ∀ n, phase slots u s inputs n ≠ 2 →
      dropped u (after slots u s inputs n) (phase slots u s inputs n) = [] := by
    intro n hn
    simp [dropped, hn]
  have h0 := hstep m
  have h1 := hstep (m + 1)
  have h2 := hstep (m + 2)
  have h3 := hstep (m + 3)
  have hdrop : dropped u (after slots u s inputs (m + 2)) (phase slots u s inputs (m + 2)) =
      (after slots u s inputs (m + 2)).uart.fifo.contents.take 1 := by
    rw [dropped, h.wo_two ht.1, ht.2, h.phase_two ht.1]
    rfl
  rw [hdropped _ (by rw [h.phase_of_takes ht.1]; decide),
    holding_eq_nil (by rw [h.phase_of_takes ht.1]; decide)] at h0
  rw [hdropped _ (by rw [h.phase_one ht.1]; decide)] at h1
  rw [hdrop] at h2
  have hend : holding u (after slots u s inputs (m + 3 + 1)) (phase slots u s inputs (m + 3 + 1)) =
      [] := holding_eq_nil ((h.phase_four ht.1).trans_le (by decide))
  rw [hdropped _ (by rw [h.phase_three ht.1]; decide), hend] at h3
  simp only [List.length_nil, Nat.add_assoc, Nat.reduceAdd] at h0 h1 h2 h3
  omega

theorem stall_eq_false_iff (n : Nat) :
    (IoChain.mwbo (after slots u s inputs n).chain).stall = false ↔
      phase slots u s inputs n = 0 := by
  show (after slots u s inputs n).chain.stall = false ↔ _
  rw [(h.phases n).stall]
  simp

/-- Every read gives its own byte as long as the second clock of its strobe finds the FIFO empty;
each time it does not, a byte is lost. -/
theorem reads_in_order_iff :
    (∀ n, (IoChain.mwbo (after slots u s inputs n).chain).stall = false →
      receivedBefore inputs n =
        returnedBefore slots u s inputs n ++ (after slots u s inputs n).uart.fifo.contents) ↔
    ∀ m, TakesData slots u s inputs m →
      (after slots u s inputs (m + 2)).uart.fifo.contents = [] := by
  constructor
  · intro horder m ht
    have hbefore := horder m ((h.stall_eq_false_iff m).mpr (h.phase_of_takes ht.1))
    have hbehind := horder (m + 4) ((h.stall_eq_false_iff _).mpr (h.phase_four ht.1))
    have hlength := h.length_read ht
    rw [hbefore, hbehind, List.length_append, List.length_append] at hlength
    have htake : ((after slots u s inputs (m + 2)).uart.fifo.contents.take 1).length = 0 := by
      omega
    simpa using htake
  · intro hempty n hstall
    rw [h.received_eq hempty n, (h.stall_eq_false_iff n).mp hstall, holding_eq_nil (by omega),
      List.nil_append]

end Polls

/-! ### Two sessions -/

instance (n : Nat) : Decidable (TakesData slots u s inputs n) := inferInstanceAs (Decidable (_ ∧ _))

instance (n : Nat) : Decidable (TakesStatus slots u s inputs n) :=
  inferInstanceAs (Decidable (_ ∧ _))

/-- Status reads in clocks 3 and 11, and data reads in clocks 7 and 15. -/
def polling (n : Nat) : Option Word :=
  if n = 3 ∨ n = 11 then some 4 else if n = 7 ∨ n = 15 then some 0 else none

/-- The bytes are received in the clocks given for them. -/
def session (bytes : Nat → Option (BitVec 8)) (n : Nat) : IoInput where
  mwbi := ((polling n).map Mosi.reading).getD .idle
  dat _ := 0
  uart := ⟨(bytes n).isSome, (bytes n).getD 0, false, false, false, 0, 0⟩

section Session

variable {bytes : Nat → Option (BitVec 8)} {n : Nat}

theorem polling_of_takes (ht : takesAt slots u s (session bytes) n = true) :
    (n = 3 ∨ n = 11) ∨ n = 7 ∨ n = 15 := by
  by_contra hno
  have hnone : polling n = none := by
    rw [not_or] at hno
    rw [polling, if_neg hno.1, if_neg hno.2]
  simp only [takesAt, takes, IoChain.accepted, chainInput, session, hnone, Option.map_none,
    Option.getD_none, Mosi.idle, Bool.false_and, Bool.false_eq_true] at ht

theorem takesData_session (ht : TakesData slots 0 s (session bytes) n) : n = 7 ∨ n = 15 := by
  refine (polling_of_takes ht.1).resolve_left ?_
  have hstatus : ¬ readsData 0 (Mosi.reading 4) = true := by decide
  rintro (rfl | rfl)
  · exact hstatus ht.2
  · exact hstatus ht.2

def fresh (bits : Nat) : Io bits := ⟨IoChain.quiet, ⟨⟨fun _ => 0, 0, 0, 0, false, true⟩, 0⟩⟩

theorem fresh_reset (bits : Nat) : (fresh bits).Reset := ⟨IoChain.quiet_reset, rfl, rfl⟩

/-- A session in which both status reads show a byte. -/
theorem session_polls
    (hroom : ∀ n, (bytes n).isSome = true →
      (after IoChain.threeSlots 0 (fresh bits) (session bytes) n).uart.fifo.fullV = false)
    (hpolled : ∀ p, p = 3 ∨ p = 11 →
      TakesStatus IoChain.threeSlots 0 (fresh bits) (session bytes) p ∧
        (IoChain.mwbo (after IoChain.threeSlots 0 (fresh bits) (session bytes)
          (p + 3)).chain).dat.getLsbD 0 = true) :
    Polls IoChain.threeSlots 0 (fresh bits) (session bytes) where
  reset := fresh_reset bits
  uart := rfl
  devices n ht := by
    have hstatus : IoChain.threeSlots (IoChain.slotOf (Mosi.reading 4)) ≠ .nodev := by decide
    have hdata : IoChain.threeSlots (IoChain.slotOf (Mosi.reading 0)) ≠ .nodev := by decide
    rcases polling_of_takes ht with (rfl | rfl) | rfl | rfl
    exacts [hstatus, hstatus, hdata, hdata]
  room := hroom
  polled m ht := by
    -- each data read has its status read four clocks ahead
    have hm := takesData_session ht
    obtain ⟨hstatus, hshown⟩ := hpolled (m - 4) (by omega)
    refine ⟨m - 4, by omega, hstatus, hshown, fun k hk hk' hdata => ?_⟩
    have := takesData_session hdata
    omega

end Session

/-- The second byte comes after the first one has been read. -/
def twoBytes : Nat → IoInput :=
  session fun n => if n = 0 then some 0x41 else if n = 9 then some 0x42 else none

theorem polls_twoBytes : Polls IoChain.threeSlots 0 (fresh 2) twoBytes := by
  refine session_polls (fun n hn => ?_) ?_
  · have hbyte : n = 0 ∨ n = 9 := by
      by_contra hno
      rw [not_or] at hno
      simp [hno] at hn
    rcases hbyte with rfl | rfl <;> decide +kernel
  · rintro p (rfl | rfl) <;> exact ⟨by decide +kernel, by decide +kernel⟩

theorem reads_in_order_two_bytes :
    returnedBefore IoChain.threeSlots 0 (fresh 2) twoBytes 19 = [0x41, 0x42] ∧
      receivedBefore twoBytes 19 = returnedBefore IoChain.threeSlots 0 (fresh 2) twoBytes 19 ++
        (after IoChain.threeSlots 0 (fresh 2) twoBytes 19).uart.fifo.contents := by
  refine ⟨by decide +kernel, polls_twoBytes.reads_in_order_iff.mpr ?_ 19 (by decide +kernel)⟩
  intro m ht
  rcases takesData_session ht with rfl | rfl <;> decide +kernel

def threeBytes : Nat → IoInput := session fun n => [0x41, 0x42, 0x43][n]?

theorem polls_threeBytes : Polls IoChain.threeSlots 0 (fresh 3) threeBytes := by
  refine session_polls (fun n hn => ?_) ?_
  · have hlt : n < 3 := by simpa using hn
    interval_cases n <;> decide +kernel
  · rintro p (rfl | rfl) <;> exact ⟨by decide +kernel, by decide +kernel⟩

/-- The first read takes two bytes out of the FIFO, and the second read returns the third byte. -/
theorem second_byte_lost :
    Polls IoChain.threeSlots 0 (fresh 3) threeBytes ∧
    receivedBefore threeBytes 19 = [0x41, 0x42, 0x43] ∧
    returnedBefore IoChain.threeSlots 0 (fresh 3) threeBytes 19 = [0x41, 0x43] := by
  refine ⟨polls_threeBytes, by decide +kernel, by decide +kernel⟩

end Runs

end Io

end Xtc.Uart
