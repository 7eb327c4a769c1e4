import Xtc.Core.Flags

/-!
# Clauses — what a condition clause decides

A clause decides whether an instruction takes effect.  Results, flags, jumps and coprocessor
accesses are made if `passes_condition` is `'1'`, memory requests unless it is `'0'`, and special
registers are loaded whatever it is; a load that fails hands its register to the write port.  So a
clause is right about an instruction only if the flags decide it rightly and nothing of the
instruction gets past it.
-/

namespace Xtc

open Linker Tools

/-! ## What an instruction does -/

namespace Execute

/-- What an instruction does in the clock that processes it: the register and, for what the
coprocessor returns, the value that it leaves for the write port; the flags; the jump, and whether
the status is restored with it; the special register; the request to the memory stage; the
coprocessor access; and the register that a load gives back without a request, which the write port
takes for data. -/
@[ext] structure Effect where
  result : Option (RegAddress × (Word → Word))
  flags : Option (Bool × Bool × Bool)
  jump : Option Word
  restores : Bool
  spr : Option (Nat × Word)
  request : Option MemoryAccessInput
  cop : Bool
  returned : Option RegAddress

def Effect.nothing : Effect := ⟨none, none, none, false, none, none, false, none⟩

def effect (i : ExecuteInput) (er : ExecuteRegs) : Effect where
  result :=
    if (next i er).regwe then some ((next i er).dreg, Writeback.result (next i er)) else none
  flags :=
    if completes i er && (drq i).modifyFlags then
      some ((aluOut i er).sign, (aluOut i er).co, (aluOut i er).zero)
    else none
  jump := if (next i er).jump then some (next i er).jumpaddr else none
  restores := returns i er
  -- the case statement lists four registers
  spr :=
    if sprLoad i er (sprIndex i) && decide (sprIndex i < 4) then some (sprIndex i, lhs i er)
    else none
  request := if dataAccess i er then some (Backend.accessOf i er) else none
  cop := copEn i er
  returned := if clrreg i er then some (drq i).sra2 else none

def unconditional (i : ExecuteInput) : ExecuteInput :=
  { i with fdui := { i.fdui with r := { i.fdui.r with drq :=
    { i.fdui.r.drq with conditionClause := .unconditional } } } }

def HasNoEffect (i : ExecuteInput) (er : ExecuteRegs) : Prop := effect i er = .nothing

end Execute

/-- The instruction does something that `passes_condition = '1'` guards. -/
def DecodeRegs.acts (d : DecodeRegs) : Bool := d.regwe || d.modifyFlags || d.isJump || d.copEn

def DecodeRegs.loadsSpr (d : DecodeRegs) : Bool :=
  d.sprwe && !d.memoryAccess && decide ((d.sra2.extractLsb 2 0).toNat < 4)

namespace Execute

section Effects

variable {i : ExecuteInput} {er : ExecuteRegs}

theorem busyInt_false (hp : processed i er = true) : busyInt i er = false := by
  simpa [processed_valid i er hp, processed] using hp

theorem completes_eq (hp : processed i er = true) :
    completes i er = (passes i er == .one) := by
  rw [completes, hp, Bool.true_and]

theorem next_regwe (hp : processed i er = true) :
    (next i er).regwe = (completes i er && (drq i).regwe) := by
  have hbusy := busyInt_false hp
  simp only [busyInt, Bool.or_eq_false_iff] at hbusy
  have hwb : (start i er).regwe = false := by simp [start, hbusy.2]
  show (if completes i er then (drq i).regwe else (start i er).regwe) = _
  rw [hwb]
  cases completes i er <;> rfl

theorem next_jump (hp : processed i er = true) :
    (next i er).jump = (completes i er && (drq i).isJump) := by
  have hstart : (start i er).jump = false := by simp [start, processed_valid i er hp]
  show (if completes i er then (drq i).isJump else (start i er).jump) = _
  rw [hstart]
  cases completes i er <;> rfl

theorem spr_isSome (hp : processed i er = true) :
    (effect i er).spr.isSome = (drq i).loadsSpr := by
  have hload : (sprLoad i er (sprIndex i) && decide (sprIndex i < 4)) = (drq i).loadsSpr := by
    simp [sprLoad, sprSelect, hp, DecodeRegs.loadsSpr, sprIndex]
  show (if _ then some _ else none : Option (Nat × Word)).isSome = _
  rw [hload]
  cases (drq i).loadsSpr <;> rfl

theorem acts_eq_false (d : DecodeRegs) : d.acts = false ↔
    d.regwe = false ∧ d.modifyFlags = false ∧ d.isJump = false ∧ d.copEn = false := by
  simp [DecodeRegs.acts, and_assoc]

/-- Nothing that `passes_condition = '1'` guards is done exactly if the instruction does not pass or
has nothing of the kind. -/
theorem guarded_iff (hp : processed i er = true) :
    effect i er =
        { Effect.nothing with
          spr := (effect i er).spr
          request := (effect i er).request
          returned := (effect i er).returned } ↔
      (passes i er = .one → (drq i).acts = false) := by
  have hv := processed_valid i er hp
  have hcomp : completes i er = true ↔ passes i er = .one := by
    rw [completes_eq hp, beq_iff_eq]
  have hcop : copEn i er = true ↔ passes i er = .one ∧ (drq i).copEn = true := by
    rw [copEn, hv, Bool.true_and, Bool.and_eq_true, beq_iff_eq]
  rw [Effect.ext_iff, acts_eq_false]
  simp only [effect, Effect.nothing, ite_eq_right_iff, reduceCtorEq, imp_false, next_regwe hp,
    next_jump hp, returns, ← Bool.not_eq_true, Bool.and_eq_true, hcomp, hcop, true_and, and_true]
  tauto

theorem request_isSome (i : ExecuteInput) (er : ExecuteRegs) :
    (effect i er).request.isSome = dataAccess i er := by
  show (if dataAccess i er then some _ else none : Option MemoryAccessInput).isSome = _
  cases dataAccess i er <;> rfl

theorem returned_isSome (i : ExecuteInput) (er : ExecuteRegs) :
    (effect i er).returned.isSome = clrreg i er := by
  show (if clrreg i er then some _ else none : Option RegAddress).isSome = _
  cases clrreg i er <;> rfl

theorem hasNoEffect_iff (hp : processed i er = true) :
    HasNoEffect i er ↔ (passes i er = .one → (drq i).acts = false) ∧ (drq i).loadsSpr = false ∧
      (passes i er ≠ .zero → (drq i).memoryAccess = false) ∧
      (passes i er = .zero → (drq i).blocks = false) := by
  have hv := processed_valid i er hp
  have hspr := spr_isSome hp
  have hrequest := request_isSome i er
  have hreturned := returned_isSome i er
  simp only [dataAccess, clrreg, hv, Bool.true_and] at hrequest hreturned
  rw [← guarded_iff hp, HasNoEffect]
  constructor
  · intro h
    rw [h] at hspr hrequest hreturned ⊢
    refine ⟨rfl, hspr.symm, fun hne => ?_, fun hzero => ?_⟩
    · simpa [hne, Effect.nothing] using hrequest
    · simpa [hzero, Effect.nothing] using hreturned
  · rintro ⟨hguarded, hload, hmem, hblock⟩
    rw [hload, Option.isSome_eq_false_iff, Option.isNone_iff_eq_none] at hspr
    have hnorequest : (effect i er).request = none := by
      rw [← Option.isNone_iff_eq_none, ← Option.isSome_eq_false_iff, hrequest]
      by_cases hzero : passes i er = .zero
      · simp [hzero]
      · simp [hmem hzero]
    have hnoreturned : (effect i er).returned = none := by
      rw [← Option.isNone_iff_eq_none, ← Option.isSome_eq_false_iff, hreturned]
      by_cases hzero : passes i er = .zero
      · simp [hblock hzero]
      · simp [hzero]
    rw [hguarded, hspr, hnorequest, hnoreturned]
    rfl

/-- Without effect the status, the saved status and the scratch register stand still, no result is
left for the write port, and there is no jump. -/
theorem HasNoEffect.registers (h : HasNoEffect i er) (hp : processed i er = true)
    (hf : doFault i er = false) : (next i er).psr = er.psr ∧ (next i er).spsr = er.spsr ∧
      (next i er).scratch = er.scratch ∧ (next i er).regwe = false ∧
      (next i er).jump = false := by
  obtain ⟨hacts, hload, -, -⟩ := (hasNoEffect_iff hp).mp h
  have hc : completes i er = true → (drq i).acts = false := fun hc =>
    hacts (by simpa [completes_eq hp] using hc)
  have hguard : ∀ b, ((drq i).acts = false → b = false) → (completes i er && b) = false := by
    intro b hb
    cases hcomp : completes i er with
    | false => rfl
    | true => exact hb (hc hcomp)
  have hwe := hguard (drq i).regwe fun h => ((acts_eq_false _).mp h).1
  have hflags := hguard (drq i).modifyFlags fun h => ((acts_eq_false _).mp h).2.1
  have hjump := hguard (drq i).isJump fun h => ((acts_eq_false _).mp h).2.2.1
  have hreturns : returns i er = false := by rw [returns, hjump, Bool.false_and]
  have hspr : ∀ k < 4, sprLoad i er k = false := by
    intro k hk
    by_contra hne
    obtain ⟨-, hsel⟩ : processed i er = true ∧ sprSelect i k = true := by
      simpa [sprLoad] using hne
    have hindex : sprIndex i = k := by
      simp only [sprSelect, Bool.and_eq_true, beq_iff_eq] at hsel
      exact hsel.2
    have htrue : (drq i).loadsSpr = true := by
      simp only [sprSelect, Bool.and_eq_true] at hsel
      have hlt : decide (((drq i).sra2.extractLsb 2 0).toNat < 4) = true :=
        decide_eq_true (hindex.trans_lt hk)
      rw [DecodeRegs.loadsSpr, hsel.1.1, hsel.1.2, hlt]
      rfl
    rw [hload] at htrue
    cases htrue
  refine ⟨?_, ?_, ?_, (next_regwe hp).trans hwe, (next_jump hp).trans hjump⟩
  · rw [next_psr, hf, psrBefore]
    simp [hflags, hspr 1 (by decide), hreturns]
  · rw [next_spsr, hf]
    simp [hspr 2 (by decide)]
  · rw [next_scratch]
    simp [hspr 3 (by decide)]

end Effects

end Execute

/-- The register that a load gives back is written in the same clock, with what the bus shows. -/
theorem Backend.returned_written {i : BackendInput} {s : Backend} {r : RegAddress}
    (hp : Execute.processed (ex i s) s.er = true)
    (h : (Execute.effect (ex i s) s.er).returned = some r) :
    (rbw i s).we = true ∧ (rbw i s).addr = r ∧ (rbw i s).data = Memory.mdata (busIn i s) := by
  have hbusy := Execute.busyInt_false hp
  simp only [Execute.busyInt, Bool.or_eq_false_iff] at hbusy
  have hmem : Memory.busy (busIn i s) s.mr = false := hbusy.1.1
  obtain ⟨hclr, hreg⟩ : Execute.clrreg (ex i s) s.er = true ∧
      (Execute.drq (ex i s)).sra2 = r := by
    simpa [Execute.effect] using h
  have hclears : Memory.clears (access i s) (busIn i s) s.mr = true := by
    have hclr' : (access i s).clrreg = true := hclr
    rw [Memory.clears, hmem, hclr']
    rfl
  have hwe : mregwe i s = true := by rw [mregwe, Memory.mregwe, hclears, Bool.or_true]
  have haddr : mreg i s = r := by
    rw [mreg, Memory.mreg, if_pos hclears]
    exact hreg
  rw [rbw, Writeback.port, if_pos hwe]
  exact ⟨rfl, haddr, rfl⟩

/-! ## Condition clauses -/

/-- The difference is a signed word. -/
def InRange (a b : Word) : Prop := -2 ^ 31 ≤ a.toInt - b.toInt ∧ a.toInt - b.toInt < 2 ^ 31

def Tools.CondCode.Holds (a b : Word) : CondCode → Prop
  | .ne => a ≠ b
  | .eq => a = b
  | .gt => b.toInt < a.toInt
  | .ge => b.toInt ≤ a.toInt
  | .lt => a.toInt < b.toInt
  | .le => a.toInt ≤ b.toInt
  | .ugt => b.toNat < a.toNat
  | .uge => b.toNat ≤ a.toNat
  | .ult => a.toNat < b.toNat
  | .ule => a.toNat ≤ b.toNat
  | .s => (a - b).toInt < 0
  | .ns => 0 ≤ (a - b).toInt

/-- The instruction carries the clause, in its extension word or by the prefix before it. -/
def Tools.CondCode.On (c : CondCode) (d : DecodeRegs) : Prop :=
  ∃ priv pc hi lo dr, d.conditionClause = (decodeInsn priv pc hi lo dr).conditionClause ∧
    if dr.imflag then dr.conditionClause = c.condition
    else hi.getLsbD 15 = true ∧ lo.extractLsb 11 8 = c.encoding

theorem Tools.CondCode.On.clause {c : CondCode} {d : DecodeRegs} (h : c.On d) :
    d.conditionClause = c.condition := by
  obtain ⟨priv, pc, hi, lo, dr, hclause, hcode⟩ := h
  have hdec : (decodeInsn priv pc hi lo dr).conditionClause =
      if dr.imflag then dr.conditionClause else (opdec hi lo priv).condition := rfl
  rw [hclause, hdec]
  by_cases him : dr.imflag = true
  · rw [if_pos him] at hcode ⊢
    exact hcode
  · rw [if_neg him] at hcode ⊢
    rw [opdec_condition, if_pos hcode.1, hcode.2]
    cases c <;> rfl

namespace Execute

variable {er₀ : ExecuteRegs} {inputs : Nat → ExecuteInput}

variable (er₀ inputs) in
/-- `a` and `b` are compared in clock `m`, and an instruction with a clause is next, in clock
`n`. -/
structure Compared (c : CondCode) (a b : Word) (m n : Nat) : Prop where
  order : m < n
  compare : Executes .cmp a b (inputs m) (run er₀ inputs m) ∨
    Executes .cmpi a b (inputs m) (run er₀ inputs m)
  between : ∀ k, m < k → k < n → Quiet (inputs k) (run er₀ inputs k)
  clause : c.On (drq (inputs n))
  processed : processed (inputs n) (run er₀ inputs n) = true
  doFault : doFault (inputs n) (run er₀ inputs n) = false

theorem Executes.compare_flags {mn : Mnemonic} {a b : Word} {i : ExecuteInput} {er : ExecuteRegs}
    (h : Executes mn a b i er) (hx : mn.arith = some ⟨.sub, false, true, false⟩) :
    (next i er).psr.getLsbD 31 = (a - b).msb ∧
      (next i er).psr.getLsbD 30 = decide (a.toNat < b.toNat) ∧
      (next i er).psr.getLsbD 29 = decide (a = b) := by
  have hcarry := (h.insn.does hx).useCarry
  simp only [h.psr hx rfl, aluOut_eq, h.left, h.right, hcarry, alu_sign, alu_co, alu_zero,
    Bool.and_false, Bool.toNat_false, Nat.add_zero]
  exact statusFlags_bits ..

theorem Compared.flags {c : CondCode} {a b : Word} {m n : Nat}
    (h : Compared er₀ inputs c a b m n) : (run er₀ inputs n).psr.getLsbD 31 = (a - b).msb ∧
      (run er₀ inputs n).psr.getLsbD 30 = decide (a.toNat < b.toNat) ∧
      (run er₀ inputs n).psr.getLsbD 29 = decide (a = b) := by
  have hpsr := psr_between h.order h.between
  simp only [hpsr]
  rcases h.compare with hcmp | hcmpi
  · exact hcmp.compare_flags rfl
  · exact hcmpi.compare_flags rfl

section Decision

variable {i : ExecuteInput} {er : ExecuteRegs} {P : Prop} {x : Bool}

end Decision

end Execute

end Xtc
