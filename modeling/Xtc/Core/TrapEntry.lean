import Xtc.Core.Processor

/-!
# TrapEntry — from a trap to the first instruction of its handler

A trap tells the fetch unit in a single clock, the one after it is taken, and the fetch unit listens
in its running state only.  If it does, the handler's first instruction passes through fetch, decode
and operand fetch, and nothing else is processed on the way, however often another trap comes.
-/

namespace Xtc

namespace Processor

/-- Where a trap goes: `trapbase` with its two low bits cleared. -/
def entry (i : ProcessorInput) : Word := i.env.trapbase.extractLsb 31 2 ++ 0#2

/-- Where the handler at `tb` is on its way to execute. -/
inductive Entering (tb : Word) (p : Processor) : Prop
  -- the fetch unit is being told
  | told (hq : p.back.er.trapq = true) (haddr : p.back.er.jumpaddr = tb)
      (hstate : p.fr.state = .running) (hfd : p.back.fdr.drq.valid = false)
  -- the instruction cache is being asked
  | asked (hstate : p.fr.state = .jumping) (hpc : p.fr.pc = tb)
      (haligned : p.fr.unalignedJump = false) (hdr : p.back.dr.valid = false)
      (hfd : p.back.fdr.drq.valid = false)
  | fetching (hq : p.back.er.trapq = false) (hstate : p.fr.state = .running) (hpc : p.fr.pc = tb)
      (haligned : p.fr.unalignedJump = false) (hdr : p.back.dr.valid = false)
      (hfd : p.back.fdr.drq.valid = false)
  | decoded (hq : p.back.er.trapq = false) (hstate : p.fr.state = .running)
      (hdr : p.back.dr.valid = true) (hpc : p.back.dr.pc = tb) (hfd : p.back.fdr.drq.valid = false)
  | waiting (hfd : p.back.fdr.drq.valid = true) (hpc : p.back.fdr.drq.pc = tb)

section Clock

variable {i : ProcessorInput} {p : Processor}

theorem entry_low (i : ProcessorInput) : (entry i).extractLsb 31 1 ++ 0#1 = entry i := by
  apply BitVec.eq_of_getLsbD_eq
  intro k hk
  simp only [entry, BitVec.getLsbD_append, BitVec.getLsbD_extractLsb]
  interval_cases k <;> simp

theorem entry_aligned (i : ProcessorInput) : (entry i).getLsbD 1 = false := by
  rw [entry, BitVec.getLsbD_append]
  rfl

theorem jumpaddr_next_of_trap (h : trap i p = true) : (next i p).back.er.jumpaddr = entry i :=
  if_pos h

theorem entering_retold {tb : Word} (hbase : entry i = tb) (ht : trap i p = true)
    (hfd : p.back.fdr.drq.valid = false) (hs : (next i p).fr.state = .running) :
    Entering tb (next i p) := by
  refine .told ht ((jumpaddr_next_of_trap ht).trans hbase) hs ?_
  rw [fdr_valid_next, ht, hfd]
  simp

theorem entering_told {tb : Word} (hbase : entry i = tb) (hq : p.back.er.trapq = true)
    (haddr : p.back.er.jumpaddr = tb) (hstate : p.fr.state = .running)
    (hfd : p.back.fdr.drq.valid = false) : Entering tb (next i p) := by
  have hj : jump i p = true := (jump_of_empty i p hfd).trans hq
  have hfr : (next i p).fr = Fetch.redirect (fetchIn i p) p.fr := by
    show Fetch.next _ _ = _
    rw [Fetch.next_running _ _ hstate]
    exact if_pos hj
  have haddr' : (fetchIn i p).jumpaddr = entry i := haddr.trans hbase.symm
  refine .asked ?_ ?_ ?_ ?_ ?_
  · rw [hfr]; rfl
  · rw [hfr, Fetch.redirect, haddr', entry_low, hbase]
  · rw [hfr, Fetch.redirect, haddr', entry_aligned]
  · rw [dr_valid_next, hj]; rfl
  · rw [fdr_valid_next, hj, hfd]; simp

theorem entering_asked {tb : Word} (hbase : entry i = tb) (hstate : p.fr.state = .jumping)
    (hpc : p.fr.pc = tb) (haligned : p.fr.unalignedJump = false) (hdr : p.back.dr.valid = false)
    (hfd : p.back.fdr.drq.valid = false) : Entering tb (next i p) := by
  have hdr' : (next i p).back.dr.valid = false := by
    have hout : (Fetch.output (fetchIn i p) p.fr).valid = false := by
      simp [Fetch.output, hstate]
    rw [dr_valid_next, hdr, hout]
    simp
  have hfd' : (next i p).back.fdr.drq.valid = false := by
    rw [fdr_valid_next, hdr, hfd]
    simp
  have hfr : (next i p).fr = if i.stall then p.fr
      else { p.fr with fpc := p.fr.fpc + 4, seq := true, invertReadout := false,
                       state := .running } := by
    exact Fetch.next_jumping _ _ hstate haligned
  cases hst : i.stall with
  | true =>
    rw [hst, if_pos rfl] at hfr
    exact .asked (by rw [hfr, hstate]) (by rw [hfr, hpc]) (by rw [hfr, haligned]) hdr' hfd'
  | false =>
    rw [hst, if_neg Bool.false_ne_true] at hfr
    have hs : (next i p).fr.state = .running := by rw [hfr]
    cases ht : trap i p with
    | true => exact entering_retold hbase ht hfd hs
    | false => exact .fetching ht hs (by rw [hfr, hpc]) (by rw [hfr, haligned]) hdr' hfd'

theorem fr_next_of_not_jump (hstate : p.fr.state = .running) (hj : jump i p = false) :
    (next i p).fr = Fetch.advance (fetchIn i p) p.fr := by
  show Fetch.next _ _ = _
  rw [Fetch.next_running _ _ hstate, show (fetchIn i p).jump = false from hj]
  rfl

theorem entering_fetching {tb : Word} (hbase : entry i = tb) (hq : p.back.er.trapq = false)
    (hstate : p.fr.state = .running) (hpc : p.fr.pc = tb) (haligned : p.fr.unalignedJump = false)
    (hdr : p.back.dr.valid = false) (hfd : p.back.fdr.drq.valid = false) :
    Entering tb (next i p) := by
  have hj : jump i p = false := (jump_of_empty i p hfd).trans hq
  have hfr := fr_next_of_not_jump hstate hj
  have hs : (next i p).fr.state = .running := by
    rw [hfr, Fetch.advance_state, hstate]
  have hfd' : (next i p).back.fdr.drq.valid = false := by
    rw [fdr_valid_next, hdr, hfd]
    simp
  have hout : (Fetch.output (fetchIn i p) p.fr).valid = i.valid := by
    simp [Fetch.output, hstate, haligned, fetchIn]
  cases ht : trap i p with
  | true => exact entering_retold hbase ht hfd hs
  | false =>
    cases htaken : i.valid && !Backend.freezeDecoder i.env p.back with
    | true =>
      have hparts := htaken
      simp only [Bool.and_eq_true, Bool.not_eq_true'] at hparts
      refine .decoded ht hs ?_ ?_ hfd'
      · rw [dr_valid_next, hj, hparts.2, hout, hparts.1]
        rfl
      · rw [dr_pc_next, hout, htaken, hpc]
        rfl
    | false =>
      have hidle := Fetch.advance_idle (fetchIn i p) p.fr htaken
      refine .fetching ht hs (by rw [hfr, hidle.1, hpc]) (by rw [hfr, hidle.2, haligned]) ?_ hfd'
      rw [dr_valid_next, hj, hout, hdr]
      cases hfz : Backend.freezeDecoder i.env p.back with
      | true => rfl
      | false => simpa [hfz] using htaken

theorem entering_decoded {tb : Word} (hbase : entry i = tb) (hq : p.back.er.trapq = false)
    (hstate : p.fr.state = .running) (hdr : p.back.dr.valid = true) (hpc : p.back.dr.pc = tb)
    (hfd : p.back.fdr.drq.valid = false) : Entering tb (next i p) := by
  have hj : jump i p = false := (jump_of_empty i p hfd).trans hq
  have hs : (next i p).fr.state = .running := by
    rw [fr_next_of_not_jump hstate hj, Fetch.advance_state, hstate]
  cases ht : trap i p with
  | true => exact entering_retold hbase ht hfd hs
  | false =>
    cases hfz : Backend.freezeDecoder i.env p.back with
    | true =>
      refine .decoded ht hs ?_ ?_ ?_
      · rw [dr_valid_next, hj, hfz, hdr]
        rfl
      · rw [dr_pc_next, hfz, Bool.not_true, Bool.and_false, if_neg Bool.false_ne_true, hpc]
      · rw [fdr_valid_next, hfd]
        cases hb : executeBusy i p with
        | true => rfl
        | false =>
          have hall : Backend.allvalid i.env p.back = false := by
            have hb' : Backend.executeBusy i.env p.back = false := hb
            simpa [Backend.freezeDecoder, hb'] using hfz
          rw [hall, Bool.and_false]
          rfl
    | false =>
      have hparts : executeBusy i p = false ∧ Backend.allvalid i.env p.back = true := by
        simpa [Backend.freezeDecoder, executeBusy] using hfz
      have hdrq := fdr_drq_next i p
      rw [hparts.1, if_neg Bool.false_ne_true, hdr, hj, ht, hparts.2] at hdrq
      exact .waiting (by rw [hdrq]; rfl) (by rw [hdrq]; exact hpc)

theorem Entering.next {tb : Word} (h : Entering tb p) (hbase : entry i = tb)
    (hp : processed i p = false) : Entering tb (next i p) := by
  cases h with
  | told hq haddr hstate hfd => exact entering_told hbase hq haddr hstate hfd
  | asked hstate hpc haligned hdr hfd => exact entering_asked hbase hstate hpc haligned hdr hfd
  | fetching hq hstate hpc haligned hdr hfd =>
    exact entering_fetching hbase hq hstate hpc haligned hdr hfd
  | decoded hq hstate hdr hpc hfd => exact entering_decoded hbase hq hstate hdr hpc hfd
  | waiting hfd hpc =>
    have hb := executeBusy_of_waiting i p hfd hp
    have hdrq := fdr_drq_next i p
    rw [hb, if_pos rfl] at hdrq
    exact .waiting (by rw [hdrq, hfd]) (by rw [hdrq, hpc])

theorem Entering.pc {tb : Word} (h : Entering tb p) (hp : processed i p = true) :
    p.back.fdr.drq.pc = tb := by
  have hv := processed_valid i p hp
  cases h with
  | told hq haddr hstate hfd => rw [hfd] at hv; cases hv
  | asked hstate hpc haligned hdr hfd => rw [hfd] at hv; cases hv
  | fetching hq hstate hpc haligned hdr hfd => rw [hfd] at hv; cases hv
  | decoded hq hstate hdr hpc hfd => rw [hfd] at hv; cases hv
  | waiting hfd hpc => exact hpc

end Clock

/-- The next instruction processed after a trap is the first of the handler, if the trap does not
find an instruction that has to wait and the fetch unit runs when it is told. -/
theorem trap_entered (p₀ : Processor) (inputs : Nat → ProcessorInput) (t u : Nat) (htu : t < u)
    (ht : trap (inputs t) (run p₀ inputs t) = true)
    (hfree : ¬ ((run p₀ inputs t).back.fdr.drq.valid = true ∧
      executeBusy (inputs t) (run p₀ inputs t) = true))
    (hrun : (run p₀ inputs (t + 1)).fr.state = .running)
    (hbase : ∀ k < u, t < k → entry (inputs k) = entry (inputs t))
    (hnone : ∀ k < u, t < k → processed (inputs k) (run p₀ inputs k) = false)
    (hp : processed (inputs u) (run p₀ inputs u) = true) :
    (run p₀ inputs u).back.fdr.drq.pc = entry (inputs t) := by
  have hentering : ∀ n, t < n → n ≤ u → Entering (entry (inputs t)) (run p₀ inputs n) := by
    intro n htn
    induction n, Nat.succ_le_of_lt htn using Nat.le_induction with
    | base =>
      intro _
      refine .told ht (jumpaddr_next_of_trap ht) hrun ?_
      show (next (inputs t) (run p₀ inputs t)).back.fdr.drq.valid = false
      rw [fdr_valid_next, ht]
      cases hb : executeBusy (inputs t) (run p₀ inputs t) with
      | true => simpa [hb] using hfree
      | false => simp
    | succ n hn ih =>
      intro hnu
      exact (ih hn (by omega)).next (hbase n (by omega) hn) (hnone n (by omega) hn)
  exact (hentering u htu le_rfl).pc hp

/-- An NMI in clock 1, while the fetch unit runs. -/
def nmiRunning (n : Nat) : ProcessorInput :=
  match n with
  | 0 => .wait false
  | 1 => (ProcessorInput.wait true).withNmi
  | 3 => .wait false
  | 4 => .offer 0x50510000
  | _ => .wait true

theorem trap_entered_nmi :
    trap (nmiRunning 1) (run reset nmiRunning 1) = true ∧
      processed (nmiRunning 6) (run reset nmiRunning 6) = true ∧
      (run reset nmiRunning 6).back.fdr.drq.pc = 0x100 := by
  refine ⟨by decide, by decide, ?_⟩
  exact trap_entered reset nmiRunning 1 6 (by decide) (by decide) (by decide) (by decide)
    (by decide) (by decide) (by decide)

/-- An NMI in clock 0, while the cache does not take the reset address until clock 2. -/
def nmiJumping (n : Nat) : ProcessorInput :=
  match n with
  | 0 => (ProcessorInput.wait true).withNmi
  | 2 => .wait false
  | 3 => .offer 0x50510000
  | _ => .wait true

/-- The trap is taken and the program goes on as if it had not. -/
theorem nmi_lost :
    ¬ (trap (nmiJumping 0) (run reset nmiJumping 0) = true →
      (∀ k < 5, 0 < k → processed (nmiJumping k) (run reset nmiJumping k) = false) →
      processed (nmiJumping 5) (run reset nmiJumping 5) = true →
        (run reset nmiJumping 5).back.fdr.drq.pc = entry (nmiJumping 0)) := by
  intro h
  have := h (by decide) (by decide) (by decide)
  revert this
  decide

end Processor

end Xtc
