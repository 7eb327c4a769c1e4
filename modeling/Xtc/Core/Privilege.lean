import Xtc.Core.Decode
import Xtc.Core.Execute

/-!
# Privilege — what user code can do to the status registers

A clock in user mode may change the flags, take a trap, or return from an exception into user mode
again; the special registers are out of its reach.  The stage keeps to this as long as no special
register write is processed in user mode or under a trap, since that write does not look at the
condition a trap clears, and no exception return is made in user mode while the saved status is a
supervisor's.
-/

namespace Xtc.Execute

/-- The part of a status word user code may change by itself. -/
structure Confined (i : ExecuteInput) (er er' : ExecuteRegs) : Prop where
  /-- Supervisor mode is entered by a trap only. -/
  raise : er.psr.getLsbD 0 = false → er'.psr.getLsbD 0 = true → doFault i er = true
  /-- No special register is loaded from a general register in user mode. -/
  y : er.psr.getLsbD 0 = false → er'.y = if i.multValid then i.multY else er.y
  scratch : er.psr.getLsbD 0 = false → er'.scratch = er.scratch
  spsr : er.psr.getLsbD 0 = false → er'.spsr = if doFault i er then er.psr else er.spsr
  psr : er.psr.getLsbD 0 = false → er'.psr =
    if doFault i er then statusTrap er.psr (faultAddress i er)
    else if returns i er then statusLoad er.psr er.spsr
    else if completes i er && (drq i).modifyFlags then
      statusFlags er.psr (aluOut i er).sign (aluOut i er).co (aluOut i er).zero i.xOvf
    else er.psr
  /-- A trap saves the status of the interrupted program. -/
  saved : doFault i er = true → er'.spsr = er.psr

structure Guarded (i : ExecuteInput) (er : ExecuteRegs) : Prop where
  user : er.psr.getLsbD 0 = false → ∀ k < 4, sprLoad i er k = true → k = 2 ∧ doFault i er = true
  trap : doFault i er = true → sprLoad i er 1 = false
  ret : er.psr.getLsbD 0 = false → returns i er = true → er.spsr.getLsbD 0 = false

section

variable {i : ExecuteInput} {er : ExecuteRegs}

theorem psrBefore_doFault (hf : doFault i er = true) (hw : sprLoad i er 1 = false) :
    psrBefore i er = er.psr := by
  have hc : completes i er = false := by
    by_contra hc
    have := completes_doFault i er (by simpa using hc)
    simp [hf] at this
  simp [psrBefore, returns, hc, hw]

theorem statusLoad_svc (old new : Word) : (statusLoad old new).getLsbD 0 = new.getLsbD 0 := by
  simp only [statusLoad, BitVec.getLsbD_append, BitVec.getLsbD_extractLsb]
  simp

theorem statusFlags_svc (old : Word) (sign co zero ovf : Bool) :
    (statusFlags old sign co zero ovf).getLsbD 0 = old.getLsbD 0 := by
  simp only [statusFlags, BitVec.getLsbD_append, BitVec.getLsbD_extractLsb]
  simp

theorem statusLoad_statusFlags (old new : Word) (sign co zero ovf : Bool) :
    statusLoad (statusFlags old sign co zero ovf) new = statusLoad old new := by
  have hmid : (statusFlags old sign co zero ovf).extractLsb 27 8 = old.extractLsb 27 8 := by
    apply BitVec.eq_of_getLsbD_eq
    intro k hk
    simp only [statusFlags, BitVec.getLsbD_extractLsb, BitVec.getLsbD_append]
    simp [show 8 + k < 28 by omega]
  simp only [statusLoad, hmid]

theorem psrBefore_unwritten (hw : sprLoad i er 1 = false) : psrBefore i er =
    if returns i er then statusLoad er.psr er.spsr
    else if completes i er && (drq i).modifyFlags then
      statusFlags er.psr (aluOut i er).sign (aluOut i er).co (aluOut i er).zero i.xOvf
    else er.psr := by
  simp only [psrBefore, hw, Bool.false_eq_true, if_false]
  cases returns i er with
  | false => rfl
  | true =>
    simp only [if_true]
    split
    · exact statusLoad_statusFlags _ _ _ _ _ _
    · rfl

/-- One clock: a guarded clock confines user code. -/
theorem Guarded.confined (h : Guarded i er) : Confined i er (next i er) := by
  have hsaved : doFault i er = true → psrBefore i er = er.psr := fun hf =>
    psrBefore_doFault hf (h.trap hf)
  have hnone : er.psr.getLsbD 0 = false → ∀ k < 4, k ≠ 2 → sprLoad i er k = false := by
    intro hu k hk hne
    by_contra hl
    exact hne (h.user hu k hk (by simpa using hl)).1
  have hpsr : er.psr.getLsbD 0 = false → (next i er).psr =
      if doFault i er then statusTrap er.psr (faultAddress i er)
      else if returns i er then statusLoad er.psr er.spsr
      else if completes i er && (drq i).modifyFlags then
        statusFlags er.psr (aluOut i er).sign (aluOut i er).co (aluOut i er).zero i.xOvf
      else er.psr := by
    intro hu
    rw [next_psr]
    split
    · rw [hsaved ‹_›]
    · exact psrBefore_unwritten (hnone hu 1 (by decide) (by decide))
  refine ⟨?_, ?_, ?_, ?_, hpsr, ?_⟩
  · intro hu hs
    by_contra hf
    rw [hpsr hu, if_neg hf] at hs
    split at hs
    · rename_i hr
      rw [statusLoad_svc, h.ret hu hr] at hs
      cases hs
    · split at hs
      · rw [statusFlags_svc, hu] at hs
        cases hs
      · rw [hu] at hs
        cases hs
  · intro hu
    rw [next_y, hnone hu 0 (by decide) (by decide)]
    rfl
  · intro hu
    rw [next_scratch, hnone hu 3 (by decide) (by decide)]
    rfl
  · intro hu
    rw [next_spsr]
    split
    · exact hsaved ‹_›
    · rename_i hf
      rw [if_neg]
      intro hl
      exact hf (h.user hu 2 (by decide) hl).2
  · intro hf
    rw [next_spsr, if_pos hf, hsaved hf]

end

/-! ## Runs of the stage -/

/-- An instruction in front of an otherwise idle stage, with `rr1` in its first register. -/
def issue (opcode : Opcode) (rr1 : Word) : ExecuteInput :=
  let drq := { decodeLoad (opdec opcode 0 true) opcode 0 0 2 decodeReset with valid := true }
  { fdui :=
      { r := { drq := drq, rd1q := drq.rd1, rd2q := drq.rd2, alu := false, waiting := false,
               alufwa := false, alufwb := false, hold := false, dreg := 0 }
        rr1 := rr1, rr2 := 0, valid := true, alufwa := false, alufwb := false }
    memBusy := false, wbBusy := false, int := false, nmi := false, memFault := false
    copData := 0, copValid := true, copFault := false, trapbase := 0x100, trappc := 0x200
    multValid := false, multR := 0, multY := 0, xAlu := 0, xOvf := false, xJumpaddr := 0
    xSprval := 0 }

/-- In every run of guarded clocks user code stays confined. -/
theorem run_confined (er : ExecuteRegs) (inputs : Nat → ExecuteInput)
    (h : ∀ n, Guarded (inputs n) (Run.states next er inputs n)) (n : Nat) :
    Confined (inputs n) (Run.states next er inputs n) (Run.states next er inputs (n + 1)) := by
  rw [Run.states_succ]
  exact (h n).confined

/-- `addi r1, 1` over and over in user mode, with the NMI line raised. -/
def userAddi : ExecuteInput := { issue 0x5011 7 with nmi := true }

theorem run_confined_addi :
    Confined userAddi { reset with psr := 0 }
      (Run.states next { reset with psr := 0 } (fun _ => userAddi) 1) :=
  run_confined { reset with psr := 0 } (fun _ => userAddi)
    (fun n =>
      have hspr : ∀ er k, sprLoad userAddi er k = false := fun er k => Bool.and_false _
      have hret : ∀ er, returns userAddi er = false := fun er => by
        simp [returns, show (drq userAddi).isJump = false from rfl]
      { user := fun _ k _ hl => by simp [hspr] at hl
        trap := fun _ => hspr _ 1
        ret := fun _ hr => by simp [hret] at hr }) 0

/-- The supervisor clears `spsr` and returns to user mode; the user then runs `wspr` on `psr`
with a supervisor status in the register. -/
def forgery (n : Nat) : ExecuteInput :=
  match n with
  | 0 => issue 0x3e20 0
  | 1 => issue 0x3400 0
  | _ => issue 0x3e11 3

/-- The trap the user's `wspr` takes saves the status it wrote. -/
theorem run_forges_status :
    ¬ Confined (forgery 2) (Run.states next reset forgery 2)
      (Run.states next reset forgery 3) := by
  intro h
  have hsaved := h.saved (by decide)
  revert hsaved
  decide

end Xtc.Execute
