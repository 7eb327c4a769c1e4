import Xtc.Core.Privilege
import Xtc.Core.Processor

/-!
# Mode — an instruction uses the register bank of the mode it runs in

The bank is chosen by the fetch unit when an instruction is fetched, the mode by execute.  An
exception return changes the mode at once and the bank when its delay slot lets the jump go, so the
delay slot is the only instruction between the two.  A trap hands the fetch unit the bank of the
mode it leaves, which is that of the handler only if the trap comes from supervisor mode.
-/

namespace Xtc

open Backend

namespace Execute

theorem statusTrap_svc (psr : Word) (fault : BitVec 4) :
    (statusTrap psr fault).getLsbD 0 = true := by
  simp only [statusTrap, BitVec.getLsbD_append, BitVec.getLsbD_extractLsb]
  simp

/-- The mode after a clock in which no write changes it. -/
theorem next_svc {i : ExecuteInput} {er : ExecuteRegs}
    (hw : sprLoad i er 1 = true → (lhs i er).getLsbD 0 = er.psr.getLsbD 0) :
    (next i er).psr.getLsbD 0 = if doFault i er then true
      else if returns i er then er.spsr.getLsbD 0 else er.psr.getLsbD 0 := by
  have hbefore : (psrBefore i er).getLsbD 0 =
      if returns i er then er.spsr.getLsbD 0 else er.psr.getLsbD 0 := by
    unfold psrBefore
    simp only
    split
    · exact statusLoad_svc _ _
    · split
      · rw [statusLoad_svc, hw ‹_›]
      · split
        · exact statusFlags_svc _ _ _ _ _
        · rfl
  rw [next_psr]
  split
  · exact statusTrap_svc _ _
  · exact hbefore

end Execute

/-- The processor, and whether the next instruction to leave execute is the delay slot of a `jmpe`.
-/
structure Moded where
  proc : Processor
  slot : Bool

namespace Moded

section

variable (i : ProcessorInput) (m : Moded)

def returns : Bool := Execute.returns (m.proc.ex i) m.proc.back.er

def next : Moded where
  proc := m.proc.next i
  slot :=
    if m.proc.back.fdr.drq.valid then
      -- what waits in front of execute stays what it is, also under a trap
      if m.proc.executeBusy i then m.slot else returns i m
    else !m.proc.trap i && m.slot

end

structure Reset (m : Moded) : Prop where
  proc : m.proc.Reset
  slot : m.slot = false

end Moded

abbrev moded (m₀ : Moded) (inputs : Nat → ProcessorInput) (n : Nat) : Moded :=
  Run.states Moded.next m₀ inputs n

structure ModeKept (i : ProcessorInput) (p : Processor) : Prop where
  mult : misheld i.env p.back = false
  wspr : Execute.sprLoad (p.ex i) p.back.er 1 = true →
    (Execute.lhs (p.ex i) p.back.er).getLsbD 0 = p.back.er.psr.getLsbD 0
  trap : p.trap i = true → p.back.er.psr.getLsbD 0 = true ∧ p.fr.priv = true

structure InMode (m : Moded) : Prop where
  orderly : Orderly m.proc.back
  jumppriv : m.proc.back.er.jumppriv = m.proc.back.er.psr.getLsbD 0
  -- the fetch unit is behind only while an exception return waits for its delay slot
  fetch : m.proc.fr.priv ≠ m.proc.back.er.psr.getLsbD 0 → m.proc.back.er.jump = true ∧ m.slot = true
  dr : m.proc.back.dr.valid = true →
    m.proc.back.dr.InBank m.proc.fr.priv ∧ m.proc.fr.state = .running
  fd : m.proc.back.fdr.drq.valid = true → m.slot = false →
    m.proc.back.fdr.drq.InBank (m.proc.back.er.psr.getLsbD 0)
  -- a jump that is let go finds the fetch unit listening
  pending : m.proc.back.er.jump = true → m.proc.back.fdr.drq.valid = true →
    m.proc.fr.state = .running

namespace InMode

variable {i : ProcessorInput} {m : Moded}

theorem returns_leaves (h : InMode m) (hr : m.returns i = true) :
    m.proc.back.fdr.drq.valid = true ∧ m.proc.executeBusy i = false := by
  simp only [Moded.returns, Execute.returns, Bool.and_eq_true] at hr
  have hp := Execute.completes_processed _ _ hr.1.1
  refine ⟨Execute.processed_valid _ _ hp, ?_⟩
  -- a multiply does not jump
  by_contra hb
  have hb' : Backend.executeBusy i.env m.proc.back = true := (Bool.not_eq_false _).mp hb
  obtain ⟨hm, hwf⟩ := h.orderly.held hb' hp
  have hjump : (Execute.drq (m.proc.ex i)).isJump = false := (hwf.mult hm).2.2.2.2.2.1
  rw [hjump] at hr
  cases hr.1.2

theorem svc_next (hok : ModeKept i m.proc) : (m.next i).proc.back.er.psr.getLsbD 0 =
    if m.proc.trap i then true
    else if m.returns i then m.proc.back.er.spsr.getLsbD 0 else m.proc.back.er.psr.getLsbD 0 :=
  Execute.next_svc hok.wspr

theorem jumppriv_next (h : InMode m) (hok : ModeKept i m.proc) :
    (m.next i).proc.back.er.jumppriv = (m.next i).proc.back.er.psr.getLsbD 0 := by
  have hnext : (m.next i).proc.back.er.jumppriv =
      if m.proc.trap i then m.proc.back.er.psr.getLsbD 0
      else if m.returns i then m.proc.back.er.spsr.getLsbD 0
      else if m.proc.processed i then m.proc.back.er.psr.getLsbD 0 else m.proc.back.er.jumppriv :=
    Execute.next_jumppriv _ _
  rw [hnext, svc_next hok]
  cases ht : m.proc.trap i with
  | true => exact (hok.trap ht).1
  | false =>
    cases m.returns i with
    | true => rfl
    | false =>
      rw [h.jumppriv]
      simp

theorem priv_next (h : InMode m) : (m.next i).proc.fr.priv =
    if m.proc.fr.state = .running ∧ m.proc.jump i = true then m.proc.back.er.psr.getLsbD 0
    else m.proc.fr.priv := by
  rw [← h.jumppriv]
  exact Fetch.next_priv _ _

theorem er_jump_next : (m.next i).proc.back.er.jump =
    if Execute.completes (m.proc.ex i) m.proc.back.er then m.proc.back.fdr.drq.isJump
    else if m.proc.back.fdr.drq.valid then false else m.proc.back.er.jump := rfl

theorem jump_of_pending (hj : m.proc.back.er.jump = true)
    (hv : m.proc.back.fdr.drq.valid = true) : m.proc.jump i = true := by
  have hv' : (m.proc.ex i).fdui.valid = true := hv
  show Execute.jump (m.proc.ex i) m.proc.back.er = true
  rw [Execute.jump, hj, hv']
  rfl

theorem fetch_step (h : InMode m) (hok : ModeKept i m.proc)
    (hne : (m.next i).proc.fr.priv ≠ (m.next i).proc.back.er.psr.getLsbD 0) :
    (m.next i).proc.back.er.jump = true ∧ (m.next i).slot = true := by
  rw [h.priv_next, svc_next hok] at hne
  cases ht : m.proc.trap i with
  | true =>
    rw [ht, (hok.trap ht).1, (hok.trap ht).2] at hne
    simp at hne
  | false =>
    cases hr : m.returns i with
    | true =>
      obtain ⟨hv, hb⟩ := h.returns_leaves hr
      have hr' := hr
      simp only [Moded.returns, Execute.returns, Bool.and_eq_true] at hr'
      constructor
      · rw [er_jump_next, hr'.1.1, if_pos rfl]
        exact hr'.1.2
      · show (if m.proc.back.fdr.drq.valid then _ else _) = true
        rw [hv, hb, hr]
        rfl
    | false =>
      rw [ht, hr] at hne
      simp only [Bool.false_eq_true, if_false] at hne
      have hstay : ¬ (m.proc.fr.state = .running ∧ m.proc.jump i = true) := fun hredirect =>
        hne (if_pos hredirect)
      rw [if_neg hstay] at hne
      obtain ⟨hj, hslot⟩ := h.fetch hne
      -- the delay slot is not there yet, or the jump would have been let go
      have hv : m.proc.back.fdr.drq.valid = false := by
        by_contra hv
        have hv' : m.proc.back.fdr.drq.valid = true := by simpa using hv
        exact hstay ⟨h.pending hj hv', jump_of_pending hj hv'⟩
      constructor
      · have hc : Execute.completes (m.proc.ex i) m.proc.back.er = false := by
          by_contra hc
          have := Execute.processed_valid _ _
            (Execute.completes_processed _ _ (by simpa using hc))
          have hv' : (m.proc.ex i).fdui.valid = false := hv
          rw [hv'] at this
          cases this
        rw [er_jump_next, hc, hv, hj]
        rfl
      · show (if m.proc.back.fdr.drq.valid then _ else !m.proc.trap i && m.slot) = true
        rw [hv, ht, hslot]
        rfl

theorem dr_step (h : InMode m) (hv : (m.next i).proc.back.dr.valid = true) :
    (m.next i).proc.back.dr.InBank (m.next i).proc.fr.priv ∧
      (m.next i).proc.fr.state = .running := by
  have hj : m.proc.jump i = false := by
    by_contra hj
    have hnext := Processor.dr_valid_next i m.proc
    rw [if_pos (by simpa using hj)] at hnext
    exact absurd (hnext.symm.trans hv) Bool.false_ne_true
  have hpriv : (m.next i).proc.fr.priv = m.proc.fr.priv := by
    rw [h.priv_next, hj]
    simp
  have hrun : m.proc.fr.state = .running := by
    have hnext : (m.next i).proc.back.dr.valid = _ := Processor.dr_valid_next i m.proc
    rw [hj, if_neg Bool.false_ne_true, hv] at hnext
    split at hnext
    · exact (h.dr hnext.symm).2
    · exact Fetch.output_valid_running _ _ hnext.symm
  refine ⟨?_, Fetch.next_state_running _ _ hrun hj⟩
  rw [hpriv]
  exact decodeNext_inBank (fun hv => (h.dr hv).1) hv

theorem fd_entered (hb : m.proc.executeBusy i = false)
    (hv : (m.next i).proc.back.fdr.drq.valid = true) :
    m.proc.back.dr.valid = true ∧ m.proc.jump i = false ∧ m.proc.trap i = false ∧
      (m.next i).proc.back.fdr.drq = { m.proc.back.dr with valid := true } := by
  have hdrq : (m.next i).proc.back.fdr.drq = _ := Processor.fdr_drq_next i m.proc
  rw [hb, if_neg Bool.false_ne_true] at hdrq
  have hv' : (m.proc.back.dr.valid && !(m.proc.jump i || m.proc.trap i) &&
      Backend.allvalid i.env m.proc.back) = true := by
    rw [hdrq] at hv
    exact hv
  have hparts := hv'
  simp only [Bool.and_eq_true, Bool.not_eq_true', Bool.or_eq_false_iff] at hparts
  exact ⟨hparts.1.1, hparts.1.2.1, hparts.1.2.2, by rw [hdrq, hv']⟩

theorem slot_next_held (hb : m.proc.executeBusy i = true)
    (hv : m.proc.back.fdr.drq.valid = true) : (m.next i).slot = m.slot := by
  show (if m.proc.back.fdr.drq.valid then (if m.proc.executeBusy i then _ else _) else _) = _
  rw [hv, hb]
  rfl

theorem fd_step (h : InMode m) (hok : ModeKept i m.proc)
    (hv : (m.next i).proc.back.fdr.drq.valid = true) (hslot : (m.next i).slot = false) :
    (m.next i).proc.back.fdr.drq.InBank ((m.next i).proc.back.er.psr.getLsbD 0) := by
  rw [svc_next hok]
  cases hb : m.proc.executeBusy i with
  | true =>
    have hdrq : (m.next i).proc.back.fdr.drq = m.proc.back.fdr.drq :=
      (Processor.fdr_drq_next i m.proc).trans (if_pos hb)
    rw [hdrq] at hv ⊢
    rw [slot_next_held hb hv] at hslot
    have hold := h.fd hv hslot
    cases ht : m.proc.trap i with
    | true =>
      rw [(hok.trap ht).1] at hold
      exact hold
    | false =>
      have hr : m.returns i = false := by
        by_contra hr
        rw [(h.returns_leaves (by simpa using hr)).2] at hb
        cases hb
      rw [hr]
      exact hold
  | false =>
    obtain ⟨hdv, hj, ht, hdrq⟩ := fd_entered hb hv
    have hbank := (h.dr hdv).1
    have hr : m.returns i = false := by
      by_contra hr
      have hr' : m.returns i = true := by simpa using hr
      have : (m.next i).slot = true := by
        show (if m.proc.back.fdr.drq.valid then (if m.proc.executeBusy i then _ else _) else _) = _
        rw [(h.returns_leaves hr').1, hb, hr']
        rfl
      rw [this] at hslot
      cases hslot
    rw [ht, hr, hdrq]
    simp only [Bool.false_eq_true, if_false]
    by_cases hpriv : m.proc.fr.priv = m.proc.back.er.psr.getLsbD 0
    · rw [← hpriv]
      exact hbank
    · -- the exception return is still waiting, so this is its delay slot
      obtain ⟨hjump, hs⟩ := h.fetch hpriv
      have hfv : m.proc.back.fdr.drq.valid = false := by
        by_contra hfv
        rw [jump_of_pending hjump (by simpa using hfv)] at hj
        cases hj
      have : (m.next i).slot = true := by
        show (if m.proc.back.fdr.drq.valid then _ else !m.proc.trap i && m.slot) = true
        rw [hfv, ht, hs]
        rfl
      rw [this] at hslot
      cases hslot

theorem pending_step (h : InMode m) (hj : (m.next i).proc.back.er.jump = true)
    (hv : (m.next i).proc.back.fdr.drq.valid = true) :
    (m.next i).proc.fr.state = .running := by
  cases hb : m.proc.executeBusy i with
  | true =>
    -- nothing that stays in front of execute jumps
    have hdrq : (m.next i).proc.back.fdr.drq = m.proc.back.fdr.drq :=
      (Processor.fdr_drq_next i m.proc).trans (if_pos hb)
    rw [hdrq] at hv
    rw [er_jump_next, hv] at hj
    cases hc : Execute.completes (m.proc.ex i) m.proc.back.er with
    | true =>
      have hb' : Backend.executeBusy i.env m.proc.back = true := hb
      obtain ⟨hm, hwf⟩ := h.orderly.held hb' (Execute.completes_processed _ _ hc)
      rw [hc, if_pos rfl, (hwf.mult hm).2.2.2.2.2.1] at hj
      cases hj
    | false =>
      rw [hc] at hj
      cases hj
  | false =>
    obtain ⟨hdv, hjump, -, -⟩ := fd_entered hb hv
    exact Fetch.next_state_running _ _ (h.dr hdv).2 hjump

theorem next (h : InMode m) (hok : ModeKept i m.proc) : InMode (m.next i) where
  orderly := h.orderly.next hok.mult
  jumppriv := h.jumppriv_next hok
  fetch := h.fetch_step hok
  dr := h.dr_step
  fd := h.fd_step hok
  pending := h.pending_step

end InMode

theorem Moded.Reset.inMode {m : Moded} (h : m.Reset) : InMode m := by
  have hback := h.proc.back
  have hpsr : m.proc.back.er.psr.getLsbD 0 = true := by
    have : m.proc.back.er.psr = 1 := hback.er.psr
    simp [this]
  have hdr : m.proc.back.dr.valid = false := by
    obtain ⟨dr, hdr⟩ := hback.dr
    rw [hdr]
    rfl
  constructor
  case orderly => exact hback.orderly
  case jumppriv => rw [hback.er.jumppriv, hpsr]
  case fetch => intro hne; rw [h.proc.fr, hpsr] at hne; exact absurd rfl hne
  case dr => intro hv; rw [hdr] at hv; cases hv
  case fd => intro hv; rw [hback.fdr.valid] at hv; cases hv
  case pending => intro hj; rw [hback.er.jump] at hj; cases hj

/-- An instruction that is processed names registers of the bank of its mode. -/
theorem bank_matches_mode {m₀ : Moded} {inputs : Nat → ProcessorInput} (h₀ : m₀.Reset) (n : Nat)
    (hok : ∀ k < n, ModeKept (inputs k) (moded m₀ inputs k).proc)
    (hp : (moded m₀ inputs n).proc.processed (inputs n) = true)
    (hslot : (moded m₀ inputs n).slot = false)
    (hcross : (moded m₀ inputs n).proc.back.fdr.drq.decoded.crossesBank = false) :
    (moded m₀ inputs n).proc.back.fdr.drq.sra1.getLsbD 4 =
        (moded m₀ inputs n).proc.back.er.psr.getLsbD 0 ∧
      (moded m₀ inputs n).proc.back.fdr.drq.sra2.getLsbD 4 =
        (moded m₀ inputs n).proc.back.er.psr.getLsbD 0 ∧
      (moded m₀ inputs n).proc.back.fdr.drq.dreg.getLsbD 4 =
        (moded m₀ inputs n).proc.back.er.psr.getLsbD 0 := by
  have hmode : InMode (moded m₀ inputs n) :=
    Run.invariant InMode (fun i m => ModeKept i m.proc) h₀.inMode (fun _ _ hok h => h.next hok) n
      hok
  exact hmode.fd (Processor.processed_valid _ _ hp) hslot hcross

def Moded.reset : Moded := ⟨Processor.reset, false⟩

/-- `jmpe` into user mode with `addi r1, 5` in its delay slot, and `addi r1, 5` and `addi r1, 7` at
its target. -/
def userAddi (n : Nat) : ProcessorInput :=
  match n with
  | 0 => .wait false
  | 1 => .offer 0x34005051
  | 2 => .offer 0
  | 5 => .wait false
  | 6 => .offer 0x50515071
  | 7 => .offer 0
  | _ => .wait true

theorem userAddi_kept : ∀ k < 9, ModeKept (userAddi k) (moded Moded.reset userAddi k).proc
  | 0, _ | 1, _ | 2, _ | 3, _ | 4, _ | 5, _ | 6, _ | 7, _ | 8, _ =>
    ⟨by decide, by decide, by decide⟩

theorem bank_matches_mode_user :
    (moded Moded.reset userAddi 9).proc.processed (userAddi 9) = true ∧
      (moded Moded.reset userAddi 9).proc.back.er.psr.getLsbD 0 = false ∧
      (moded Moded.reset userAddi 9).proc.back.fdr.drq.sra1.getLsbD 4 =
        (moded Moded.reset userAddi 9).proc.back.er.psr.getLsbD 0 ∧
      (moded Moded.reset userAddi 9).proc.back.fdr.drq.sra2.getLsbD 4 =
        (moded Moded.reset userAddi 9).proc.back.er.psr.getLsbD 0 ∧
      (moded Moded.reset userAddi 9).proc.back.fdr.drq.dreg.getLsbD 4 =
        (moded Moded.reset userAddi 9).proc.back.er.psr.getLsbD 0 :=
  ⟨by decide, by decide, bank_matches_mode ⟨Processor.reset_reset, rfl⟩ 9 userAddi_kept (by decide)
    (by decide) (by decide)⟩

/-- `jmpe` into user mode with `addi r1, 5` in its delay slot, an NMI in clock 5 and `addi r1, 5` at
the start of the handler. -/
def userNmi (n : Nat) : ProcessorInput :=
  match n with
  | 0 => .wait false
  | 1 => .offer 0x34005051
  | 2 => .offer 0
  | 5 => (ProcessorInput.wait false).withNmi
  | 7 => .wait false
  | 8 => .offer 0x50510000
  | _ => .wait true

/-- The handler starts in supervisor mode with the registers of the user. -/
theorem handler_in_user_bank :
    ¬ ((∀ k < 10, Execute.sprLoad ((moded Moded.reset userNmi k).proc.ex (userNmi k))
          (moded Moded.reset userNmi k).proc.back.er 1 = false) →
      (moded Moded.reset userNmi 10).proc.processed (userNmi 10) = true →
      (moded Moded.reset userNmi 10).slot = false →
      (moded Moded.reset userNmi 10).proc.back.fdr.drq.decoded.crossesBank = false →
        (moded Moded.reset userNmi 10).proc.back.fdr.drq.sra1.getLsbD 4 =
            (moded Moded.reset userNmi 10).proc.back.er.psr.getLsbD 0 ∧
          (moded Moded.reset userNmi 10).proc.back.fdr.drq.sra2.getLsbD 4 =
            (moded Moded.reset userNmi 10).proc.back.er.psr.getLsbD 0 ∧
          (moded Moded.reset userNmi 10).proc.back.fdr.drq.dreg.getLsbD 4 =
            (moded Moded.reset userNmi 10).proc.back.er.psr.getLsbD 0) := by
  intro h
  have := (h (by decide) (by decide) (by decide) (by decide)).1
  revert this
  decide

end Xtc
