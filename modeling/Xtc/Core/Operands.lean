import Xtc.Core.WriteOnce

/-!
# Operands — every operand is the latest value of its register

The registers of the program are kept beside the pipeline: an instruction assigns its destination
when it leaves execute, and a load assigns it with the data of its answer.  The bank lags behind by
the result that waits for the write port, and what an instruction reads while the one ahead of it
completes is either forwarded or not touched by it.
-/

namespace Xtc

open Backend

/-- The latest assignment to a register in program order. -/
inductive Assigned
  | known (v : Word)
  | awaits (load : Nat)
  deriving DecidableEq

structure Observed where
  traced : Traced
  arch : RegAddress → Assigned
  -- the value of the instruction that completed last
  result : Word
  -- the instruction in front of execute has completed before and was held
  early : Bool

/-- The two operands, with what each stage keeps for them. -/
inductive Side
  | left
  | right

namespace Side

def rd (d : DecodeRegs) : Side → Bool
  | left => d.rd1
  | right => d.rd2

def sra (d : DecodeRegs) : Side → RegAddress
  | left => d.sra1
  | right => d.sra2

def forwarded (s : Backend) : Side → Bool
  | left => s.fdr.alufwa
  | right => s.fdr.alufwb

def value (s : Backend) : Side → Word
  | left => if s.fdr.alufwa then s.er.alur else s.rr1
  | right => if s.fdr.alufwb then s.er.alur else s.rr2

end Side

/-- The instruction in decode moves in front of execute. -/
def Backend.enters (i : BackendInput) (s : Backend) : Bool :=
  s.dr.valid && !executeBusy i s && !flushfd i s && allvalid i s

namespace Observed

section

variable (i : BackendInput) (o : Observed)

abbrev core : Backend := o.traced.core

def leaves : Bool := o.traced.completes i && !executeBusy i o.core

def assign (r : RegAddress) : Assigned :=
  if leaves i o && o.core.fdr.drq.regwe && r == o.core.fdr.drq.dreg then
    .known (resultOf i o.core)
  else if leaves i o && o.core.fdr.drq.blocks && r == o.core.fdr.drq.sra2 then
    .awaits o.traced.ledger.fdId
  else
    match o.arch r with
    | .known v => .known v
    | .awaits id =>
      -- an answer is for the load that made the request
      if mregwe i o.core && id == o.traced.writer i then .known (mdata i o.core) else .awaits id

def next : Observed where
  traced := o.traced.next i
  arch := assign i o
  result := if o.traced.completes i then resultOf i o.core else o.result
  early := executeBusy i o.core && (o.early || o.traced.completes i)

def view (r : RegAddress) : Word :=
  if o.core.er.regwe && r == o.core.er.dreg then o.result else o.core.ram r

end

/-- Out of reset, the program's registers are those of the bank. -/
structure Start (o : Observed) : Prop where
  traced : o.traced.Reset
  arch : ∀ r, o.arch r = .known (o.core.ram r)
  early : o.early = false

end Observed

structure OperandsKept (i : BackendInput) (o : Observed) : Prop extends LoadsPass i o.core where
  trap : trap i o.core = false
  -- only ALU results are forwarded
  late : o.leaves i = true → o.core.fdr.drq.regwe = true → o.core.fdr.drq.regSource ≠ .alu →
    enters i o.core = true →
      ∀ p : Side, p.rd o.core.dr = true → p.sra o.core.dr ≠ o.core.fdr.drq.dreg
  -- a special register value does not outlive the clock
  spr : o.core.er.regwe = true → o.core.er.regSource = .spr → mregwe i o.core = false
  -- the coprocessor still drives what it drove
  cop : o.core.er.regwe = true → o.core.er.regSource = .cop → mregwe i o.core = false →
    i.copData = o.result

structure Current (o : Observed) : Prop where
  tracked : Tracked o.core
  alu : o.core.fdr.alu = true →
    o.core.fdr.dreg = o.core.fdr.drq.dreg ∧ Fetchdata.writesAlu o.core.fdr.drq = true
  forwardable : o.core.fdr.drq.valid = true → Fetchdata.writesAlu o.core.fdr.drq = true →
    o.core.fdr.alu = true
  -- nobody overtakes a load to its register
  fdReg : o.core.fdr.drq.valid = true → o.core.fdr.drq.regwe = true →
    isDirty o.core o.core.fdr.drq.dreg = false
  erReg : o.core.er.regwe = true → loads o.core ≠ [] → o.core.er.dreg ≠ o.core.dirtyReg
  waits : ∀ r id, o.arch r = .awaits id → isDirty o.core r = true ∧ fdLoad o.core = false
  owners : List.Forall₂
    (fun tag id => Memory.tagLoad tag = true → o.arch (Memory.tagReg tag) = .awaits id)
    (requests o.core) o.traced.ledger.owners
  waiting : o.core.er.regwe = true → o.core.er.regSource ≠ .cop →
    ∀ cop, Writeback.result o.core.er cop = o.result
  -- a held multiply spoils its own destination until it leaves
  view : ∀ r v, o.arch r = .known v → ¬ (o.early = true ∧ r = o.core.fdr.drq.dreg) → o.view r = v
  early : o.early = true → o.core.fdr.drq.valid = true ∧ o.core.fdr.drq.ismult = true ∧
    passesCondition o.core.fdr.drq.conditionClause o.core.er.psr = .one
  operand : ∀ p : Side, o.core.fdr.drq.valid = true → p.rd o.core.fdr.drq = true →
    Regbank.isZero (p.sra o.core.fdr.drq) = false →
      ¬ (o.early = true ∧ p.forwarded o.core = true) →
        o.arch (p.sra o.core.fdr.drq) = .known (p.value o.core)

namespace Current

variable {i : BackendInput} {o : Observed}

/-- The port writes the value that was computed. -/
theorem port (h : Current o) (hok : OperandsKept i o) (hwe : o.core.er.regwe = true)
    (hw : mregwe i o.core = false) : Writeback.result o.core.er i.copData = o.result := by
  by_cases hcop : o.core.er.regSource = .cop
  · have := hok.cop hwe hcop hw
    simpa [Writeback.result, hcop] using this
  · exact h.waiting hwe hcop i.copData

/-- A load that is answered is the one the scoreboard names. -/
theorem answered (h : Current o) (hok : OperandsKept i o) (hw : mregwe i o.core = true) :
    isDirty o.core (mreg i o.core) = true ∧ loads o.core ≠ [] ∧
      o.arch (mreg i o.core) = .awaits (o.traced.writer i) := by
  obtain ⟨rest, hrest⟩ := loads_of_mregwe hok.toLoadsPass hw
  have hclr : (access i o.core).clrreg = false := hok.toLoadsPass.clrreg
  have hack := hw
  rw [hok.toLoadsPass.mregwe, Bool.and_eq_true] at hack
  obtain ⟨others, hreq⟩ := requests_of_ack hack.1
  have harch : o.arch (Memory.tagReg (busIn i o.core).tag) = .awaits (o.traced.writer i) := by
    have howners := h.owners
    rw [hreq] at howners
    cases hown : o.traced.ledger.owners with
    | nil => rw [hown] at howners; cases howners
    | cons id ids =>
      rw [hown] at howners
      cases howners with
      | cons hhead _ =>
        have hwriter : o.traced.writer i = id := by
          simp [Traced.writer, hw, Memory.clears, hclr, hown]
        rw [hwriter]
        exact hhead hack.2
  rw [hok.toLoadsPass.mreg]
  exact ⟨(h.waits _ _ harch).1, by simp [hrest], harch⟩

theorem ram_next (h : Current o) (hok : OperandsKept i o) (r : RegAddress) :
    (o.next i).core.ram r =
      if mregwe i o.core then (if r == mreg i o.core then mdata i o.core else o.core.ram r)
      else o.view r := by
  show Regbank.write (rbw i o.core) o.core.ram r = _
  cases hw : mregwe i o.core with
  | true => simp [Regbank.write, rbw, Writeback.port, hw]
  | false =>
    cases hwe : o.core.er.regwe with
    | false => simp [Regbank.write, rbw, Writeback.port, hw, hwe, Observed.view]
    | true => simp [Regbank.write, rbw, Writeback.port, hw, hwe, Observed.view, h.port hok hwe hw]

theorem completes_wbBusy (hc : o.traced.completes i = true) : wbBusy i o.core = false := by
  have hp := Execute.completes_processed _ _ hc
  simp only [Execute.processed, Execute.busyInt, Bool.and_eq_true, Bool.not_eq_true',
    Bool.or_eq_false_iff] at hp
  exact hp.2.2

/-- The bank and the waiting result together change only by what completes and what is answered. -/
theorem view_next (h : Current o) (hok : OperandsKept i o) (r : RegAddress) :
    (o.next i).view r =
      if o.traced.completes i && o.core.fdr.drq.regwe && r == o.core.fdr.drq.dreg then
        resultOf i o.core
      else if mregwe i o.core && r == mreg i o.core then mdata i o.core
      else o.view r := by
  have hview : (o.next i).view r =
      if (if o.traced.completes i then o.core.fdr.drq.regwe
          else wbBusy i o.core && o.core.er.regwe) &&
        r == (if o.traced.completes i then o.core.fdr.drq.dreg else o.core.er.dreg) then
        (if o.traced.completes i then resultOf i o.core else o.result)
      else (o.next i).core.ram r := rfl
  rw [hview, h.ram_next hok]
  cases hc : o.traced.completes i with
  | true =>
    -- the port is free for the instruction before, so no result waits behind a load
    have hwb := completes_wbBusy hc
    cases hw : mregwe i o.core with
    | false => simp
    | true =>
      have hwe : o.core.er.regwe = false := by simpa [wbBusy, Writeback.busy, hw] using hwb
      simp [Observed.view, hwe]
  | false =>
    cases hw : mregwe i o.core with
    | false => simp [wbBusy, Writeback.busy, hw]
    | true =>
      cases hwe : o.core.er.regwe with
      | false => simp [wbBusy, Writeback.busy, hwe, Observed.view]
      | true =>
        obtain ⟨hdirty, hloads, -⟩ := h.answered hok hw
        have hne : mreg i o.core ≠ o.core.er.dreg := by
          intro heq
          simp only [isDirty, Bool.and_eq_true, beq_iff_eq] at hdirty
          exact h.erReg hwe hloads (heq ▸ hdirty.2)
        simp only [wbBusy, Writeback.busy, hw, hwe, Observed.view, Bool.and_self, Bool.true_and,
          Bool.false_and, Bool.false_eq_true, if_false, if_true, beq_iff_eq]
        by_cases hr : r = mreg i o.core
        · simp [hr, hne]
        · simp [hr]

theorem early_leaves (h : Current o) (hok : OperandsKept i o) (he : o.early = true)
    (hb : executeBusy i o.core = false) :
    o.traced.completes i = true ∧ o.core.fdr.drq.regwe = true := by
  obtain ⟨hv, hm, hpass⟩ := h.early he
  refine ⟨?_, ((h.tracked.fd hv).mult hm).1⟩
  have hbi : Execute.busyInt (ex i o.core) o.core.er = false := by
    simp only [executeBusy, Execute.busy, Bool.or_eq_false_iff] at hb
    exact hb.1
  have hf : Execute.doFault (ex i o.core) o.core.er = false := hok.trap
  have hv' : (ex i o.core).fdui.valid = true := hv
  have hpass' : passesCondition (Execute.drq (ex i o.core)).conditionClause o.core.er.psr = .one :=
    hpass
  simp [Traced.completes, Execute.completes, Execute.processed, Execute.passes, hbi, hf, hv',
    hpass']

theorem waits_mreg (h : Current o) (hok : OperandsKept i o) {r : RegAddress} {id : Nat}
    (hr : o.arch r = .awaits id) (hw : mregwe i o.core = true) :
    r = mreg i o.core ∧ id = o.traced.writer i := by
  obtain ⟨hdirty, -, harch⟩ := h.answered hok hw
  have hr' := (h.waits r id hr).1
  simp only [isDirty, Bool.and_eq_true, beq_iff_eq] at hdirty hr'
  have heq : r = mreg i o.core := hr'.2.trans hdirty.2.symm
  refine ⟨heq, ?_⟩
  rw [heq, harch] at hr
  exact (Assigned.awaits.inj hr).symm

theorem view_step (h : Current o) (hok : OperandsKept i o) (r : RegAddress) (v : Word)
    (hr : (o.next i).arch r = .known v)
    (hne : ¬ ((o.next i).early = true ∧ r = (o.next i).core.fdr.drq.dreg)) :
    (o.next i).view r = v := by
  rw [h.view_next hok]
  have harch : (o.next i).arch r = o.assign i r := rfl
  have hearly : (o.next i).early =
      (executeBusy i o.core && (o.early || o.traced.completes i)) := rfl
  have hdrq : executeBusy i o.core = true → (o.next i).core.fdr.drq = o.core.fdr.drq := fun hb =>
    (fdr_drq_next i o.core).trans (if_pos hb)
  rw [harch, Observed.assign, Observed.leaves] at hr
  -- what completes and stays spoils its destination
  have hheld : o.traced.completes i = true → r = o.core.fdr.drq.dreg →
      executeBusy i o.core = false := by
    intro hc hd
    by_contra hb
    have hb' : executeBusy i o.core = true := by simpa using hb
    apply hne
    rw [hearly, hb', hc, hdrq hb', Bool.or_true]
    exact ⟨rfl, hd⟩
  by_cases hd : o.traced.completes i = true ∧ o.core.fdr.drq.regwe = true ∧ r = o.core.fdr.drq.dreg
  · obtain ⟨hc, hwe, hd⟩ := hd
    have hb := hheld hc hd
    simp only [hc, hb, hwe, hd, beq_self_eq_true, Bool.not_false, Bool.and_self, if_true] at hr
    simp only [hc, hwe, hd, beq_self_eq_true, Bool.and_self, if_true]
    exact Assigned.known.inj hr
  · have hleave : ¬ (o.traced.completes i && !executeBusy i o.core && o.core.fdr.drq.regwe &&
        r == o.core.fdr.drq.dreg) = true := by
      simp only [Bool.and_eq_true, beq_iff_eq]
      exact fun hl => hd ⟨hl.1.1.1, hl.1.2, hl.2⟩
    rw [if_neg hleave] at hr
    rw [if_neg (by simpa only [Bool.and_eq_true, beq_iff_eq, and_assoc] using hd)]
    split at hr
    · cases hr
    · cases hold : o.arch r with
      | known w =>
        rw [hold] at hr
        have hnw : ¬ (mregwe i o.core && r == mreg i o.core) = true := by
          simp only [Bool.and_eq_true, beq_iff_eq]
          rintro ⟨hw, rfl⟩
          rw [(h.answered hok hw).2.2] at hold
          cases hold
        rw [if_neg hnw, ← Assigned.known.inj hr]
        refine h.view r w hold fun ⟨he, hreg⟩ => ?_
        by_cases hb : executeBusy i o.core = true
        · apply hne
          rw [hearly, hb, he, hdrq hb]
          exact ⟨rfl, hreg⟩
        · obtain ⟨hc, hwe⟩ := h.early_leaves hok he (by simpa using hb)
          exact hd ⟨hc, hwe, hreg⟩
      | awaits id =>
        rw [hold] at hr
        simp only [Bool.and_eq_true, beq_iff_eq] at hr
        split at hr
        · rename_i hw
          rw [if_pos (by simp [hw.1, (h.waits_mreg hok hold hw.1).1])]
          exact Assigned.known.inj hr
        · cases hr

theorem executed_eq (hok : OperandsKept i o) :
    Execute.executed (ex i o.core) o.core.er = o.traced.completes i := by
  have hf : Execute.doFault (ex i o.core) o.core.er = false := hok.trap
  simp [Execute.executed, Traced.completes, Execute.completes, Execute.passes, hf]

theorem enters_parts (hin : enters i o.core = true) : o.core.dr.valid = true ∧
    executeBusy i o.core = false ∧ flushfd i o.core = false ∧ allvalid i o.core = true := by
  simpa [enters, and_assoc] using hin

/-- Only the waiting result tells the bank from the program's registers, and nothing waits for a
register that the instruction ahead does not write. -/
theorem view_eq_ram (hb : executeBusy i o.core = false) {r : RegAddress}
    (hd : ¬ (o.traced.completes i = true ∧ o.core.fdr.drq.regwe = true ∧
      r = o.core.fdr.drq.dreg)) : (o.next i).view r = (o.next i).core.ram r := by
  have hwb : wbBusy i o.core = false := by
    simp only [executeBusy, Execute.busy, Execute.busyInt, Bool.or_eq_false_iff] at hb
    exact hb.1.2
  have hview : (o.next i).view r =
      if (if o.traced.completes i then o.core.fdr.drq.regwe
          else wbBusy i o.core && o.core.er.regwe) &&
        r == (if o.traced.completes i then o.core.fdr.drq.dreg else o.core.er.dreg) then
        (if o.traced.completes i then resultOf i o.core else o.result)
      else (o.next i).core.ram r := rfl
  rw [hview, hwb]
  cases hc : o.traced.completes i with
  | false => simp
  | true =>
    rw [hc] at hd
    have hd' : ¬ (o.core.fdr.drq.regwe && r == o.core.fdr.drq.dreg) = true := by
      simpa [-not_and] using hd
    simp only [if_true]
    rw [if_neg hd']

/-- What an instruction reads as it moves in front of execute. -/
theorem entered (h : Current o) (hok : OperandsKept i o) (hin : enters i o.core = true)
    {r : RegAddress} (hclean : isDirty o.core r = false)
    (hlate : o.leaves i = true → o.core.fdr.drq.regwe = true → o.core.fdr.drq.regSource ≠ .alu →
      r ≠ o.core.fdr.drq.dreg) :
    (o.next i).arch r =
      .known (if Fetchdata.forwards (fdControl i o.core) o.core.fdr r then
        (o.next i).core.er.alur else (o.next i).core.ram r) := by
  obtain ⟨-, hb, -, -⟩ := enters_parts hin
  have harch : (o.next i).arch r = o.assign i r := rfl
  have halur : (o.next i).core.er.alur =
      if o.traced.completes i then (Execute.aluOut (ex i o.core) o.core.er).o
      else o.core.er.alur := rfl
  have hforwards : Fetchdata.forwards (fdControl i o.core) o.core.fdr r =
      (o.core.fdr.alu && r == o.core.fdr.dreg && o.traced.completes i) := by
    rw [← executed_eq hok]
    rfl
  have hleaves : o.leaves i = o.traced.completes i := by simp [Observed.leaves, hb]
  by_cases hd : o.traced.completes i = true ∧ o.core.fdr.drq.regwe = true ∧ r = o.core.fdr.drq.dreg
  · -- the instruction ahead writes the register: its ALU result is forwarded
    obtain ⟨hc, hwe, hreg⟩ := hd
    have hsrc : o.core.fdr.drq.regSource = .alu := by
      by_contra hsrc
      exact hlate (hleaves.trans hc) hwe hsrc hreg
    have hv : o.core.fdr.drq.valid = true :=
      Execute.processed_valid _ _ (Execute.completes_processed _ _ hc)
    have halu := h.forwardable hv (by simp [Fetchdata.writesAlu, hsrc, hwe])
    rw [harch, Observed.assign, hleaves, hforwards, halur, hc, halu, (h.alu halu).1, hwe, hreg]
    simp [resultOf, hsrc]
  · have hnf : Fetchdata.forwards (fdControl i o.core) o.core.fdr r = false := by
      rw [hforwards]
      by_contra hf
      simp only [Bool.not_eq_false, Bool.and_eq_true, beq_iff_eq] at hf
      obtain ⟨⟨halu, hreg⟩, hc⟩ := hf
      obtain ⟨hdreg, hwrites⟩ := h.alu halu
      simp only [Fetchdata.writesAlu, Bool.and_eq_true] at hwrites
      exact hd ⟨hc, hwrites.2, hreg.trans hdreg⟩
    -- nor is it a load to the register, or a register that awaits one
    have hknown : ∃ v, (o.next i).arch r = .known v := by
      rw [harch, Observed.assign, hleaves]
      split
      · exact ⟨_, rfl⟩
      · split
        · rename_i hl
          simp only [Bool.and_eq_true, beq_iff_eq] at hl
          obtain ⟨⟨hc, hbl⟩, hreg⟩ := hl
          have hv : o.core.fdr.drq.valid = true :=
            Execute.processed_valid _ _ (Execute.completes_processed _ _ hc)
          have hfd : fdLoad o.core = true := by simp [fdLoad, hv, hbl]
          cases h.tracked.phase with
          | idle hl hf hd => rw [hf] at hfd; cases hfd
          | ready hl hf hd hr => simp [isDirty, hd, hr, hreg] at hclean
          | flying t hl hf hd hr => rw [hf] at hfd; cases hfd
        · cases hold : o.arch r with
          | known v => exact ⟨v, rfl⟩
          | awaits id => rw [(h.waits r id hold).1] at hclean; cases hclean
    obtain ⟨v, hv⟩ := hknown
    have hearly : (o.next i).early = false := by
      show (executeBusy i o.core && _) = false
      rw [hb, Bool.false_and]
    have hview := h.view_step hok r v hv (by simp [hearly])
    rw [hnf, hv, ← hview, view_eq_ram hb hd]
    rfl

theorem fdr_drq_held (hb : executeBusy i o.core = true) :
    (o.next i).core.fdr.drq = o.core.fdr.drq := (fdr_drq_next i o.core).trans (if_pos hb)

theorem fdr_drq_entered (hb : executeBusy i o.core = false)
    (hv : (o.next i).core.fdr.drq.valid = true) :
    enters i o.core = true ∧ (o.next i).core.fdr.drq = { o.core.dr with valid := true } := by
  have hdrq : (o.next i).core.fdr.drq =
      { o.core.dr with valid := o.core.dr.valid && !flushfd i o.core && allvalid i o.core } :=
    (fdr_drq_next i o.core).trans (if_neg (by simp [hb]))
  have hv' : (o.core.dr.valid && !flushfd i o.core && allvalid i o.core) = true := by
    rw [hdrq] at hv
    exact hv
  refine ⟨?_, by rw [hdrq, hv']⟩
  simpa [enters, hb] using hv'

theorem value_held (hb : executeBusy i o.core = true) (p : Side)
    (hf : p.forwarded o.core = true → o.traced.completes i = false) :
    p.value (o.next i).core = p.value o.core := by
  have halur : (o.next i).core.er.alur =
      if o.traced.completes i then (Execute.aluOut (ex i o.core) o.core.er).o
      else o.core.er.alur := rfl
  have hfreeze : (fdControl i o.core).freeze = true := hb
  have hen : ∀ rd, rbEn i o.core rd = false := by simp [rbEn, hb]
  cases p with
  | left =>
    have hfw : (o.next i).core.fdr.alufwa = o.core.fdr.alufwa := if_pos hfreeze
    have hrr : (o.next i).core.rr1 = o.core.rr1 := by
      show Regbank.read _ _ (rbEn i o.core _) _ _ = _
      simp [Regbank.read, hen]
    simp only [Side.value, hfw, hrr]
    split
    · rename_i hfwa
      rw [halur, hf hfwa]
      rfl
    · rfl
  | right =>
    have hfw : (o.next i).core.fdr.alufwb = o.core.fdr.alufwb := if_pos hfreeze
    have hrr : (o.next i).core.rr2 = o.core.rr2 := by
      show Regbank.read _ _ (rbEn i o.core _) _ _ = _
      simp [Regbank.read, hen]
    simp only [Side.value, hfw, hrr]
    split
    · rename_i hfwb
      rw [halur, hf hfwb]
      rfl
    · rfl

theorem value_entered (hin : enters i o.core = true) (p : Side)
    (hrd : p.rd o.core.dr = true) (hz : Regbank.isZero (p.sra o.core.dr) = false) :
    p.value (o.next i).core =
      if Fetchdata.forwards (fdControl i o.core) o.core.fdr (p.sra o.core.dr) then
        (o.next i).core.er.alur else (o.next i).core.ram (p.sra o.core.dr) := by
  obtain ⟨-, hb, hfl, -⟩ := enters_parts hin
  have hfreeze : ¬ (fdControl i o.core).freeze = true := by
    show ¬ executeBusy i o.core = true
    simp [hb]
  have hen : ∀ rd, rbEn i o.core rd = rd := by simp [rbEn, hb, hfl]
  cases p with
  | left =>
    have hfw : (o.next i).core.fdr.alufwa =
        Fetchdata.forwards (fdControl i o.core) o.core.fdr o.core.dr.sra1 := if_neg hfreeze
    have hrr : (o.next i).core.rr1 = (o.next i).core.ram o.core.dr.sra1 := by
      show Regbank.read _ _ (rbEn i o.core _) _ _ = Regbank.write _ _ _
      simp only [Side.rd, Side.sra] at hrd hz
      simp [Regbank.read, hen, hrd, hz]
    simp only [Side.value, Side.sra, hfw, hrr]
    rfl
  | right =>
    have hfw : (o.next i).core.fdr.alufwb =
        Fetchdata.forwards (fdControl i o.core) o.core.fdr o.core.dr.sra2 := if_neg hfreeze
    have hrr : (o.next i).core.rr2 = (o.next i).core.ram o.core.dr.sra2 := by
      show Regbank.read _ _ (rbEn i o.core _) _ _ = Regbank.write _ _ _
      simp only [Side.rd, Side.sra] at hrd hz
      simp [Regbank.read, hen, hrd, hz]
    simp only [Side.value, Side.sra, hfw, hrr]
    rfl

theorem clean_of_enters (hin : enters i o.core = true) (p : Side)
    (hrd : p.rd o.core.dr = true) : isDirty o.core (p.sra o.core.dr) = false := by
  obtain ⟨-, hb, hfl, hall⟩ := enters_parts hin
  have hen : ∀ rd, rbEn i o.core rd = rd := by simp [rbEn, hb, hfl]
  simp only [allvalid, hen, Bool.and_eq_true, Bool.not_eq_true', Bool.and_eq_false_imp] at hall
  cases p with
  | left => exact hall.1.1.1 hrd
  | right => exact hall.1.1.2 hrd

theorem operand_step (h : Current o) (hok : OperandsKept i o) (p : Side)
    (hv : (o.next i).core.fdr.drq.valid = true) (hrd : p.rd (o.next i).core.fdr.drq = true)
    (hz : Regbank.isZero (p.sra (o.next i).core.fdr.drq) = false)
    (hne : ¬ ((o.next i).early = true ∧ p.forwarded (o.next i).core = true)) :
    (o.next i).arch (p.sra (o.next i).core.fdr.drq) = .known (p.value (o.next i).core) := by
  cases hb : executeBusy i o.core with
  | true =>
    rw [fdr_drq_held hb] at hv hrd hz ⊢
    have hearly : (o.next i).early = (o.early || o.traced.completes i) := by
      show (executeBusy i o.core && _) = _
      rw [hb, Bool.true_and]
    have hfw : p.forwarded (o.next i).core = p.forwarded o.core := by
      cases p <;> exact if_pos hb
    rw [hearly, hfw, Bool.or_eq_true] at hne
    have hold := h.operand p hv hrd hz fun ⟨he, hf⟩ => hne ⟨.inl he, hf⟩
    rw [value_held hb p fun hf => by
      by_contra hc
      exact hne ⟨.inr (by simpa using hc), hf⟩, ← hold]
    show o.assign i _ = _
    simp [Observed.assign, Observed.leaves, hb, hold]
  | false =>
    obtain ⟨hin, hdrq⟩ := fdr_drq_entered hb hv
    have hrd' : p.rd o.core.dr = true := by
      rw [hdrq] at hrd
      cases p <;> exact hrd
    have hsra : p.sra (o.next i).core.fdr.drq = p.sra o.core.dr := by
      rw [hdrq]
      cases p <;> rfl
    rw [hsra] at hz ⊢
    rw [value_entered hin p hrd' hz]
    exact h.entered hok hin (clean_of_enters hin p hrd') fun hl hwe hsrc =>
      hok.late hl hwe hsrc hin p hrd'

/-! ### The other fields -/

theorem leaves_fdLoad (hl : o.leaves i = true) (hbl : o.core.fdr.drq.blocks = true) :
    fdLoad o.core = true := by
  simp only [Observed.leaves, Bool.and_eq_true] at hl
  have hv : o.core.fdr.drq.valid = true :=
    Execute.processed_valid _ _ (Execute.completes_processed _ _ hl.1)
  simp [fdLoad, hv, hbl]

theorem isDirty_next (h : Current o) (hbl : isBlocking i o.core = false) (r : RegAddress) :
    isDirty (o.next i).core r = (isDirty o.core r && !cleans i o.core) := by
  have hdirty : (o.next i).core.dirty =
      ((isBlocking i o.core && !o.core.dirty || o.core.dirty) && !cleans i o.core) :=
    dirty_next h.tracked
  have hreg : (o.next i).core.dirtyReg =
      if isBlocking i o.core && !o.core.dirty then o.core.dr.sra2 else o.core.dirtyReg := rfl
  rw [isDirty, hdirty, hreg, hbl, isDirty]
  simp [Bool.and_right_comm]

theorem waits_step (h : Current o) (hok : OperandsKept i o) (r : RegAddress) (id : Nat)
    (hr : (o.next i).arch r = .awaits id) :
    isDirty (o.next i).core r = true ∧ fdLoad (o.next i).core = false := by
  -- with the scoreboard taken and nothing answered, both stay as they are
  have hstay : isDirty o.core r = true → mregwe i o.core = false →
      (executeBusy i o.core = true → fdLoad o.core = false) →
        isDirty (o.next i).core r = true ∧ fdLoad (o.next i).core = false := by
    intro hd hw hf
    have hdirty : o.core.dirty = true := by
      simp only [isDirty, Bool.and_eq_true] at hd
      exact hd.1
    have hbl := isBlocking_of_dirty (i := i) hdirty
    refine ⟨by rw [h.isDirty_next hbl, hd, cleans, hw]; rfl, ?_⟩
    have hfd : fdLoad (o.next i).core =
        if executeBusy i o.core then fdLoad o.core else isBlocking i o.core := fdLoad_next
    rw [hfd, hbl]
    split
    · exact hf ‹_›
    · rfl
  have harch : (o.next i).arch r = o.assign i r := rfl
  rw [harch, Observed.assign] at hr
  split at hr
  · cases hr
  · split at hr
    · rename_i hl
      simp only [Bool.and_eq_true, beq_iff_eq] at hl
      obtain ⟨⟨hl, hbl⟩, hreg⟩ := hl
      have hfd := leaves_fdLoad hl hbl
      cases h.tracked.phase with
      | idle hls hf hd => rw [hf] at hfd; cases hfd
      | flying t hls hf hd hrg => rw [hf] at hfd; cases hfd
      | ready hls hf hd hrg =>
        refine hstay (by simp [isDirty, hd, hrg, hreg])
          (h.tracked.executeBusy_load hok.toLoadsPass hfd).1 fun hb => ?_
        simp [Observed.leaves, hb] at hl
    · cases hold : o.arch r with
      | known v => rw [hold] at hr; cases hr
      | awaits id' =>
        rw [hold] at hr
        obtain ⟨hd, hf⟩ := h.waits r id' hold
        refine hstay hd ?_ fun _ => hf
        by_contra hw
        have hw' : mregwe i o.core = true := by simpa using hw
        simp [hw', (h.waits_mreg hok hold hw').2] at hr

/-- A register that awaits a load goes on to, until it is answered. -/
theorem arch_awaits (h : Current o) (hw : mregwe i o.core = false) {r : RegAddress} {id : Nat}
    (hr : o.arch r = .awaits id) : (o.next i).arch r = .awaits id := by
  obtain ⟨hd, hf⟩ := h.waits r id hr
  show o.assign i r = _
  rw [Observed.assign, if_neg, if_neg, hr, hw]
  · rfl
  · intro hl
    simp only [Bool.and_eq_true] at hl
    rw [leaves_fdLoad hl.1.1 hl.1.2] at hf
    cases hf
  · intro hl
    simp only [Bool.and_eq_true, beq_iff_eq] at hl
    obtain ⟨⟨hl, hwe⟩, hreg⟩ := hl
    simp only [Observed.leaves, Bool.and_eq_true] at hl
    have hv : o.core.fdr.drq.valid = true :=
      Execute.processed_valid _ _ (Execute.completes_processed _ _ hl.1)
    rw [hreg, h.fdReg hv hwe] at hd
    cases hd

theorem owners_step (h : Current o) (hok : OperandsKept i o) : List.Forall₂
    (fun tag id => Memory.tagLoad tag = true → (o.next i).arch (Memory.tagReg tag) = .awaits id)
    (requests (o.next i).core) (o.next i).traced.ledger.owners := by
  have hreq : requests (o.next i).core =
      (if (busIn i o.core).ack then (requests o.core).tail else requests o.core) ++
        queued i o.core := requests_next i o.core
  have hown : (o.next i).traced.ledger.owners =
      (if (busIn i o.core).ack then o.traced.ledger.owners.tail else o.traced.ledger.owners) ++
        (queued i o.core).map fun _ => o.traced.ledger.fdId := rfl
  rw [hreq, hown]
  refine List.rel_append ?_ ?_
  · cases hw : mregwe i o.core with
    | false =>
      have hold := h.owners.imp fun tag id ht hl => h.arch_awaits (i := i) hw (ht hl)
      split
      · rw [← List.drop_one, ← List.drop_one]
        exact List.forall₂_drop 1 hold
      · exact hold
    | true =>
      -- the load that is answered was the only one
      obtain ⟨rest, hrest⟩ := loads_of_mregwe hok.toLoadsPass hw
      have hack := hw
      rw [hok.toLoadsPass.mregwe, Bool.and_eq_true] at hack
      obtain ⟨others, hothers⟩ := requests_of_ack hack.1
      have hnone : ∀ tag ∈ others, Memory.tagLoad tag = false := by
        have hone : others.filter Memory.tagLoad = [] := by
          have hl : loads o.core = (busIn i o.core).tag :: others.filter Memory.tagLoad := by
            rw [loads, hothers, List.filter_cons_of_pos hack.2]
          cases h.tracked.phase with
          | idle hls hf hd => rw [hls] at hl; cases hl
          | ready hls hf hd hr => rw [hls] at hl; cases hl
          | flying t hls hf hd hr => rw [hls] at hl; exact (List.cons.inj hl).2.symm
        simpa using hone
      have htail : List.Forall₂ (fun _ _ => True) others o.traced.ledger.owners.tail := by
        have hdrop := List.forall₂_drop 1 h.owners
        rw [hothers] at hdrop
        rw [← List.drop_one]
        exact hdrop.imp fun _ _ _ => trivial
      rw [hothers, hack.1, if_pos rfl, if_pos rfl, List.tail_cons]
      refine ((List.forall₂_and_left _ _).mpr ⟨hnone, htail⟩).imp fun tag id hl htag => ?_
      rw [hl.1] at htag
      cases htag
  · rw [List.forall₂_map_right_iff, List.forall₂_same]
    intro tag hmem htag
    have hne : tag ∈ (queued i o.core).filter Memory.tagLoad := List.mem_filter.mpr ⟨hmem, htag⟩
    rw [queued_loads h.tracked hok.toLoadsPass] at hne
    split at hne
    · rename_i hl
      simp only [Bool.and_eq_true, Bool.not_eq_true'] at hl
      rw [List.mem_singleton] at hne
      have hreg : Memory.tagReg tag = o.core.fdr.drq.sra2 := by
        rw [hne, Memory.tagReg_tag]
        rfl
      have hc : o.traced.completes i = true := hok.toLoadsPass.completes hl.1 hl.2
      have hbl : o.core.fdr.drq.blocks = true := by
        have := hl.1
        simp only [fdLoad, Bool.and_eq_true] at this
        exact this.2
      show o.assign i _ = _
      simp [Observed.assign, Observed.leaves, hc, hl.2, (h.tracked.load_fields hl.1).2.2.1, hbl,
        hreg]
    · cases hne

theorem fdReg_step (h : Current o) (hv : (o.next i).core.fdr.drq.valid = true)
    (hwe : (o.next i).core.fdr.drq.regwe = true) :
    isDirty (o.next i).core (o.next i).core.fdr.drq.dreg = false := by
  cases hb : executeBusy i o.core with
  | true =>
    rw [fdr_drq_held hb] at hv hwe ⊢
    have hbl : isBlocking i o.core = false := by simp [isBlocking, hb]
    rw [h.isDirty_next hbl, h.fdReg hv hwe]
    rfl
  | false =>
    obtain ⟨hin, hdrq⟩ := fdr_drq_entered hb hv
    obtain ⟨-, -, -, hall⟩ := enters_parts hin
    rw [hdrq] at hwe ⊢
    have hwe' : o.core.dr.regwe = true := hwe
    -- a load has no result of its own
    have hbl : isBlocking i o.core = false := by
      have hmem : o.core.dr.memoryAccess = false := by
        by_contra hmem
        rw [(h.tracked.dr.memory (by simpa using hmem)).1] at hwe'
        cases hwe'
      simp [isBlocking, h.tracked.dr.blocks, hmem]
    have hclean : isDirty o.core o.core.dr.dreg = false := by
      simp only [allvalid, hwe', Bool.true_and, Bool.and_eq_true, Bool.not_eq_true'] at hall
      exact hall.1.2
    rw [h.isDirty_next hbl]
    show (isDirty o.core o.core.dr.dreg && _) = false
    rw [hclean, Bool.false_and]

theorem regwe_next : (o.next i).core.er.regwe =
    if o.traced.completes i then o.core.fdr.drq.regwe
    else wbBusy i o.core && o.core.er.regwe := rfl

theorem erReg_step (h : Current o) (hok : OperandsKept i o)
    (hwe : (o.next i).core.er.regwe = true) (hl : loads (o.next i).core ≠ []) :
    (o.next i).core.er.dreg ≠ (o.next i).core.dirtyReg := by
  have hdreg : (o.next i).core.er.dreg =
      if o.traced.completes i then o.core.fdr.drq.dreg else o.core.er.dreg := rfl
  rw [regwe_next] at hwe
  cases hc : o.traced.completes i with
  | false =>
    -- a result waits for a load only, and no other load is under way
    rw [hc] at hwe
    simp only [Bool.false_eq_true, if_false, wbBusy, Writeback.busy, Bool.and_eq_true] at hwe
    exact absurd (h.tracked.loads_after hok.toLoadsPass hwe.1.1) hl
  | true =>
    rw [hc, if_pos rfl] at hwe
    have hv : o.core.fdr.drq.valid = true :=
      Execute.processed_valid _ _ (Execute.completes_processed _ _ hc)
    have hnfd : fdLoad o.core = false := by
      by_contra hfd
      rw [(h.tracked.load_fields (by simpa using hfd)).2.2.1] at hwe
      cases hwe
    have hloads : loads (o.next i).core =
        (if mregwe i o.core then (loads o.core).tail else loads o.core) ++
          (queued i o.core).filter Memory.tagLoad := loads_next hok.toLoadsPass
    rw [queued_loads h.tracked hok.toLoadsPass, hnfd] at hloads
    cases h.tracked.phase with
    | idle hls hf hd => exact absurd (by simpa [hls] using hloads) hl
    | ready hls hf hd hr => rw [hf] at hnfd; cases hnfd
    | flying t hls hf hd hr =>
      have hreg : (o.next i).core.dirtyReg = o.core.dirtyReg := by
        show (if isBlocking i o.core && !o.core.dirty then _ else _) = _
        simp [hd]
      rw [hdreg, hc, if_pos rfl, hreg]
      have := h.fdReg hv hwe
      simpa [isDirty, hd] using this

theorem waiting_step (h : Current o) (hok : OperandsKept i o)
    (hwe : (o.next i).core.er.regwe = true) (hcop : (o.next i).core.er.regSource ≠ .cop)
    (cop : Word) : Writeback.result (o.next i).core.er cop = (o.next i).result := by
  have hsource : (o.next i).core.er.regSource =
      if o.traced.completes i then o.core.fdr.drq.regSource else o.core.er.regSource := rfl
  have halur : (o.next i).core.er.alur = if o.traced.completes i then
      (Execute.aluOut (ex i o.core) o.core.er).o else o.core.er.alur := rfl
  have hnpc : (o.next i).core.er.npc =
      if o.traced.completes i then o.core.fdr.drq.fpc else o.core.er.npc := rfl
  have hsprval : (o.next i).core.er.sprval = Execute.sprval (ex i o.core) o.core.er := rfl
  have hresult : (o.next i).result =
      if o.traced.completes i then resultOf i o.core else o.result := rfl
  rw [regwe_next] at hwe
  rw [hsource] at hcop
  rw [Writeback.result, hsource, halur, hnpc, hsprval, hresult]
  cases hc : o.traced.completes i with
  | true =>
    rw [hc] at hcop
    simp only [if_true] at hcop ⊢
    unfold resultOf
    cases hsrc : o.core.fdr.drq.regSource with
    | alu => rfl
    | spr => rfl
    | pcnext => rfl
    | cop => exact absurd hsrc hcop
  | false =>
    rw [hc] at hcop hwe
    simp only [Bool.false_eq_true, if_false, wbBusy, Writeback.busy, Bool.and_eq_true] at hcop hwe ⊢
    have hold := h.waiting hwe.2 hcop cop
    rw [Writeback.result] at hold
    cases hsrc : o.core.er.regSource with
    | alu => simpa [hsrc] using hold
    | spr =>
      rw [hok.spr hwe.2 hsrc] at hwe
      cases hwe.1.1
    | pcnext => simpa [hsrc] using hold
    | cop => exact absurd hsrc hcop

theorem early_step (h : Current o) (hok : OperandsKept i o) (he : (o.next i).early = true) :
    (o.next i).core.fdr.drq.valid = true ∧ (o.next i).core.fdr.drq.ismult = true ∧
      passesCondition (o.next i).core.fdr.drq.conditionClause (o.next i).core.er.psr = .one := by
  have hearly : (o.next i).early =
      (executeBusy i o.core && (o.early || o.traced.completes i)) := rfl
  rw [hearly, Bool.and_eq_true, Bool.or_eq_true] at he
  obtain ⟨hb, he⟩ := he
  have hpsr : (o.next i).core.er.psr = o.core.er.psr := h.tracked.psr_held hb hok.trap
  rw [fdr_drq_held hb, hpsr]
  rcases he with he | hc
  · exact h.early he
  · have hp := Execute.completes_processed _ _ hc
    refine ⟨Execute.processed_valid _ _ hp, (h.tracked.held hb hp).1, ?_⟩
    have hexec := executed_eq hok
    rw [hc] at hexec
    simp only [Execute.executed, Bool.and_eq_true, beq_iff_eq] at hexec
    exact hexec.2

theorem alu_step (h : Current o) (ha : (o.next i).core.fdr.alu = true) :
    (o.next i).core.fdr.dreg = (o.next i).core.fdr.drq.dreg ∧
      Fetchdata.writesAlu (o.next i).core.fdr.drq = true := by
  have halu : (o.next i).core.fdr.alu = if executeBusy i o.core then o.core.fdr.alu
      else Fetchdata.writesAlu o.core.dr && !flushfd i o.core := rfl
  have hdreg : (o.next i).core.fdr.dreg =
      if !executeBusy i o.core && Fetchdata.writesAlu o.core.dr then o.core.dr.dreg
      else o.core.fdr.dreg := rfl
  have hdrq := fdr_drq_next i o.core
  change (o.next i).core.fdr.drq = _ at hdrq
  rw [halu] at ha
  rw [hdreg, hdrq]
  cases hb : executeBusy i o.core with
  | true =>
    rw [hb] at ha
    exact h.alu ha
  | false =>
    rw [hb] at ha
    simp only [Bool.false_eq_true, if_false, Bool.and_eq_true] at ha
    refine ⟨?_, ha.1⟩
    simp [ha.1]

theorem forwardable_step (h : Current o) (hv : (o.next i).core.fdr.drq.valid = true)
    (hw : Fetchdata.writesAlu (o.next i).core.fdr.drq = true) :
    (o.next i).core.fdr.alu = true := by
  have halu : (o.next i).core.fdr.alu = if executeBusy i o.core then o.core.fdr.alu
      else Fetchdata.writesAlu o.core.dr && !flushfd i o.core := rfl
  rw [halu]
  cases hb : executeBusy i o.core with
  | true =>
    rw [fdr_drq_held hb] at hv hw
    exact h.forwardable hv hw
  | false =>
    obtain ⟨hin, hdrq⟩ := fdr_drq_entered hb hv
    obtain ⟨-, -, hfl, -⟩ := enters_parts hin
    rw [hdrq] at hw
    have hw' : Fetchdata.writesAlu o.core.dr = true := hw
    simp [hw', hfl]

/-- One clock keeps the operands current. -/
theorem next (h : Current o) (hok : OperandsKept i o) : Current (o.next i) where
  tracked := h.tracked.next hok.toLoadsPass
  alu := h.alu_step
  forwardable := h.forwardable_step
  fdReg := h.fdReg_step
  erReg := h.erReg_step hok
  waits := h.waits_step hok
  owners := h.owners_step hok
  waiting := h.waiting_step hok
  view := h.view_step hok
  early := h.early_step hok
  operand := h.operand_step hok

end Current

theorem Observed.Start.current {o : Observed} (h : o.Start) : Current o := by
  have hreset : o.core.Reset := h.traced.core
  have hv := hreset.fdr.valid
  have hwe := hreset.er.regwe
  constructor
  case tracked => exact hreset.tracked
  case alu => intro ha; rw [hreset.fdr.alu] at ha; cases ha
  case forwardable => intro hv'; rw [hv] at hv'; cases hv'
  case fdReg => intro hv'; rw [hv] at hv'; cases hv'
  case erReg => intro hwe'; rw [hwe] at hwe'; cases hwe'
  case waits => intro r id hr; rw [h.arch] at hr; cases hr
  case owners =>
    have hreq : requests o.core = [] := by simp [requests, hreset.bus, hreset.mr.stb]
    rw [hreq, h.traced.ledger]
    exact .nil
  case waiting => intro hwe'; rw [hwe] at hwe'; cases hwe'
  case view =>
    intro r v hr _
    rw [h.arch] at hr
    rw [Observed.view, hwe]
    exact Assigned.known.inj hr
  case early => intro he; rw [h.early] at he; cases he
  case operand => intro p hv'; rw [hv] at hv'; cases hv'

abbrev observed (o₀ : Observed) (inputs : Nat → BackendInput) (n : Nat) : Observed :=
  Run.states Observed.next o₀ inputs n

/-- In front of execute both operands are the latest values of their registers.  A multiply that
has completed and is held may have lost an operand that it took by forwarding. -/
theorem operands_current {o₀ : Observed} {inputs : Nat → BackendInput} (h₀ : o₀.Start) (n : Nat)
    (hok : ∀ k < n, OperandsKept (inputs k) (observed o₀ inputs k))
    (hv : (observed o₀ inputs n).core.fdr.drq.valid = true) :
    ((observed o₀ inputs n).core.fdr.drq.rd1 = true →
      Regbank.isZero (observed o₀ inputs n).core.fdr.drq.sra1 = false →
      ¬ ((observed o₀ inputs n).early = true ∧ (observed o₀ inputs n).core.fdr.alufwa = true) →
        (observed o₀ inputs n).arch (observed o₀ inputs n).core.fdr.drq.sra1 =
          .known (Execute.lhs (ex (inputs n) (observed o₀ inputs n).core)
            (observed o₀ inputs n).core.er)) ∧
    ((observed o₀ inputs n).core.fdr.drq.rd2 = true →
      Regbank.isZero (observed o₀ inputs n).core.fdr.drq.sra2 = false →
      ¬ ((observed o₀ inputs n).early = true ∧ (observed o₀ inputs n).core.fdr.alufwb = true) →
        (observed o₀ inputs n).arch (observed o₀ inputs n).core.fdr.drq.sra2 =
          .known (Execute.rhs (ex (inputs n) (observed o₀ inputs n).core)
            (observed o₀ inputs n).core.er)) := by
  have hcur : Current (observed o₀ inputs n) :=
    Run.invariant Current OperandsKept h₀.current (fun _ _ hok h => h.next hok) n hok
  exact ⟨hcur.operand .left hv, hcur.operand .right hv⟩

def Observed.reset : Observed where
  traced := Traced.reset
  arch := fun r => .known (Backend.reset.ram r)
  result := 0
  early := false

theorem Observed.reset_start : Observed.reset.Start :=
  ⟨⟨Backend.reset_reset, rfl⟩, fun _ => rfl, rfl⟩

theorem twoAddi_kept : ∀ k < 3, OperandsKept (twoAddi k) (observed Observed.reset twoAddi k)
  | 0, _ | 1, _ | 2, _ =>
    { pass := by decide
      mult := by decide
      trap := by decide
      late := fun _ _ hsrc => absurd (by decide) hsrc
      spr := by decide
      cop := by decide }

theorem operands_current_addi :
    (observed Observed.reset twoAddi 3).arch (observed Observed.reset twoAddi 3).core.fdr.drq.sra1 =
        .known (Execute.lhs (ex (twoAddi 3) (observed Observed.reset twoAddi 3).core)
          (observed Observed.reset twoAddi 3).core.er) ∧
      Execute.lhs (ex (twoAddi 3) (observed Observed.reset twoAddi 3).core)
        (observed Observed.reset twoAddi 3).core.er = 5 :=
  ⟨(operands_current Observed.reset_start 3 twoAddi_kept (by decide)).1 (by decide) (by decide)
    (by decide), by decide⟩

def rsprAddi (n : Nat) : BackendInput :=
  match n with
  | 0 => .rest (fetched 0x3C11 0 true)
  | 1 => .rest (fetched 0x5051 0 true)
  | _ => .rest (fetched 0 0 false)

/-- No trap is taken, and the `addi` still reads what was in the bank before the `rspr`. -/
theorem rspr_not_forwarded :
    (∀ k ≤ 3, trap (rsprAddi k) (observed Observed.reset rsprAddi k).core = false) ∧
      ¬ (Execute.processed (ex (rsprAddi 3) (observed Observed.reset rsprAddi 3).core)
            (observed Observed.reset rsprAddi 3).core.er = true →
        (observed Observed.reset rsprAddi 3).core.fdr.drq.rd1 = true →
        Regbank.isZero (observed Observed.reset rsprAddi 3).core.fdr.drq.sra1 = false →
          (observed Observed.reset rsprAddi 3).arch
              (observed Observed.reset rsprAddi 3).core.fdr.drq.sra1 =
            .known (Execute.lhs (ex (rsprAddi 3) (observed Observed.reset rsprAddi 3).core)
              (observed Observed.reset rsprAddi 3).core.er)) := by
  constructor
  · decide
  · intro h
    have := h (by decide) (by decide) (by decide)
    revert this
    decide

end Xtc
