import Xtc.Core.Flags
import Xtc.Core.WriteOnce

/-!
# Multiply — a multiply waits for its product

The multiplier answers some clocks after it is enabled.  The multiply stays in front of execute
through the `hold` flag of operand fetch, which several events clear besides the answer: a jump
whose delay slot the multiply is in, a trap, a refetch, and an answer that comes in a clock in which
execute is stalled.  And the multiplier is enabled again in every clock of the wait, so that answers
arrive after the multiply has left.
-/

namespace Xtc

open Backend

/-! ## The decoded multiply -/

structure DecodeRegs.Mult (d : DecodeRegs) : Prop where
  enableAlu : d.enableAlu = true
  aluOp : d.aluOp = .mul
  regwe : d.regwe = true
  regSource : d.regSource = .alu

theorem opdecCase_ismult {op : DecodedOpcode} {p f : Bool} {d : Opdec} (hd : d.ismult = false)
    (h : (opdecCase op p f d).1.ismult = true) :
    (opdecCase op p f d).1.enableAlu = true ∧ (opdecCase op p f d).1.aluOp = .mul ∧
      (opdecCase op p f d).1.modifyGpr = true ∧ (opdecCase op p f d).1.regSource = .alu := by
  have hother : (opdecCase op p f d).1.ismult = d.ismult ∨ op = .alu := by
    cases op <;> first | exact .inr rfl | exact .inl rfl
  rw [hd, h] at hother
  obtain rfl : op = .alu := by simpa using hother
  have halu : ∀ d : Opdec, d.ismult = false → (opdecAlu p f d).ismult = true →
      (opdecAlu p f d).enableAlu = true ∧ (opdecAlu p f d).aluOp = .mul ∧
        (opdecAlu p f d).modifyGpr = true ∧ (opdecAlu p f d).regSource = .alu := by
    intro d hd h
    cases hop : d.aluOp <;> cases f <;> simp [opdecAlu, hop, hd] at h ⊢
  exact halu d hd h

theorem opdec_ismult {hi lo : Opcode} {p : Bool} (h : (opdec hi lo p).ismult = true) :
    (opdec hi lo p).enableAlu = true ∧ (opdec hi lo p).aluOp = .mul ∧
      (opdec hi lo p).modifyGpr = true ∧ (opdec hi lo p).regSource = .alu := by
  have hc := opdec_sameControl hi lo p
  rw [hc.ismult] at h
  rw [hc.enableAlu, hc.aluOp, hc.modifyGpr, hc.regSource]
  exact opdecCase_ismult rfl h

/-- The decode registers say that there is a multiply only if there is one. -/
theorem decodeNext_mult {fui : FetchOutput} {freeze flush : Bool} {dr : DecodeRegs}
    (hdr : dr.ismult = true → dr.Mult)
    (h : (decodeNext fui freeze flush dr).ismult = true) :
    (decodeNext fui freeze flush dr).Mult := by
  cases flush with
  | true => exact absurd h (by simp [decodeNext, decodeFlush])
  | false =>
    cases hload : fui.valid && !freeze with
    | true =>
      simp only [decodeNext, hload, if_true, Bool.false_eq_true, if_false] at h ⊢
      obtain ⟨h1, h2, h3, h4⟩ := opdec_ismult (show (decodeDec fui).ismult = true from h)
      exact ⟨h1, h2, h3, h4⟩
    | false =>
      simp only [decodeNext, hload, Bool.false_eq_true, if_false] at h ⊢
      have hsame : dr.ismult = true := by
        cases freeze <;> exact h
      have hm := hdr hsame
      cases freeze <;> exact ⟨hm.enableAlu, hm.aluOp, hm.regwe, hm.regSource⟩

/-- A multiply on its way to execute. -/
structure Backend.Mults (s : Backend) : Prop where
  dr : s.dr.ismult = true → s.dr.Mult
  drq : s.fdr.drq.valid = true → s.fdr.drq.ismult = true → s.fdr.drq.Mult

theorem Backend.Mults.next {i : BackendInput} {s : Backend} (h : s.Mults) :
    (Backend.next i s).Mults where
  dr := decodeNext_mult h.dr
  drq := by
    rw [fdr_drq_next]
    split
    · exact h.drq
    · intro _ hm
      have hmult := h.dr hm
      exact ⟨hmult.enableAlu, hmult.aluOp, hmult.regwe, hmult.regSource⟩

theorem Backend.Reset.mults {s : Backend} (h : s.Reset) : s.Mults where
  dr := by
    obtain ⟨dr, hdr⟩ := h.dr
    rw [hdr]
    exact fun hm => absurd hm (by simp [decodeFlush])
  drq := by
    rw [h.fdr.valid]
    exact fun hv => absurd hv (by decide)

/-! ## The flag -/

section Hold

variable {i : BackendInput} {s : Backend}

theorem hold_enters (hfree : executeBusy i s = false)
    (hvalid : (Backend.next i s).fdr.drq.valid = true)
    (hmult : (Backend.next i s).fdr.drq.ismult = true) : (Backend.next i s).fdr.hold = true := by
  rw [fdr_drq_next, hfree] at hvalid hmult
  simp only [Bool.false_eq_true, if_false, Bool.and_eq_true, Bool.not_eq_true'] at hvalid hmult
  obtain ⟨⟨hv, hflush⟩, hall⟩ := hvalid
  rw [hold_next, hflush, hall, hfree, hv, hmult]
  simp

theorem hold_stays (hbusy : executeBusy i s = true) (hflush : flushfd i s = false)
    (hall : allvalid i s = true) (hanswer : i.multValid = false) :
    (Backend.next i s).fdr.hold = s.fdr.hold := by
  rw [hold_next, clrhold_of_flushfd hflush, hflush, hall, hanswer, hbusy]
  rfl

end Hold

/-! ## The multiplier -/

/-- `mult_en`: like `enable_alu`, formed before a trap clears the condition. -/
def Execute.multEn (i : ExecuteInput) (er : ExecuteRegs) : Bool :=
  executed i er && (drq i).enableAlu && (drq i).aluOp == .mul

section Run

variable (t₀ : Traced) (inputs : Nat → BackendInput)

def enabled (k : Nat) : Bool :=
  Execute.multEn (ex (inputs k) (traced t₀ inputs k).core) (traced t₀ inputs k).core.er

/-- What the multiplier sees in clock `k`. -/
def operandA (k : Nat) : Word :=
  Execute.lhs (ex (inputs k) (traced t₀ inputs k).core) (traced t₀ inputs k).core.er

def operandB (k : Nat) : Word :=
  Execute.aluB (ex (inputs k) (traced t₀ inputs k).core) (traced t₀ inputs k).core.er

def product (k : Nat) : BitVec 64 :=
  (operandA t₀ inputs k).signExtend 64 * (operandB t₀ inputs k).signExtend 64

/-- The multiplier up to clock `n`: every answer comes `latency` clocks after an enable and with the
product of what was there then, and an enable after as many clocks without one is answered.  What
becomes of the enables of the clocks between an enable and its answer is left open. -/
structure Multiplier (latency n : Nat) : Prop where
  latency_pos : 0 < latency
  sound : ∀ k ≤ n, (inputs k).multValid = true → ∃ j, j + latency = k ∧
    enabled t₀ inputs j = true ∧ (inputs k).multR = (product t₀ inputs j).extractLsb 31 0 ∧
    (inputs k).multY = (product t₀ inputs j).extractLsb 63 32
  answers : ∀ j, j + latency ≤ n → enabled t₀ inputs j = true →
    (∀ i < j, j ≤ i + latency → enabled t₀ inputs i = false) →
    (inputs (j + latency)).multValid = true

/-- The instruction in front of execute at `n` has been held in peace since it came there: no flush,
no refetch, and no answer of the multiplier in a stalled clock. -/
def HeldQuietly (n : Nat) : Prop :=
  ∀ k, (traced t₀ inputs n).ledger.fdId ≤ k → k < n →
    flushfd (inputs k) (traced t₀ inputs k).core = false ∧
    allvalid (inputs k) (traced t₀ inputs k).core = true ∧
    ((inputs k).multValid && Execute.busyInt (ex (inputs k) (traced t₀ inputs k).core)
      (traced t₀ inputs k).core.er) = false

/-- No multiply has been in the multiplier for `latency` clocks when the instruction came. -/
def ComesAlone (latency n : Nat) : Prop :=
  ∀ k < (traced t₀ inputs n).ledger.fdId, (traced t₀ inputs n).ledger.fdId ≤ k + latency →
    enabled t₀ inputs k = false

variable {t₀ inputs}

variable (inputs) in
theorem traced_mults (h₀ : t₀.Reset) (n : Nat) : (traced t₀ inputs n).core.Mults := by
  induction n with
  | zero => exact h₀.core.mults
  | succ n ih => exact ih.next

variable (inputs) in
/-- The number of an instruction is the clock in which it comes in front of execute. -/
theorem traced_fdId_fdId (h₀ : t₀.Reset) (n : Nat) :
    (traced t₀ inputs (traced t₀ inputs n).ledger.fdId).ledger.fdId =
      (traced t₀ inputs n).ledger.fdId := by
  induction n with
  | zero =>
    have h : (traced t₀ inputs 0).ledger.fdId = 0 := by
      have := traced_fdId_le inputs h₀ 0
      omega
    rw [h, h]
  | succ n ih =>
    have hsucc := traced_fdId_succ inputs h₀ n
    by_cases hb : executeBusy (inputs n) (traced t₀ inputs n).core = true
    · rw [if_pos hb] at hsucc
      rw [hsucc, ih]
    · rw [if_neg hb] at hsucc
      rw [hsucc, hsucc]

variable (inputs) in
theorem traced_held (h₀ : t₀.Reset) {n k : Nat} (hk : (traced t₀ inputs n).ledger.fdId ≤ k)
    (hkn : k < n) : executeBusy (inputs k) (traced t₀ inputs k).core = true :=
  traced_frozen inputs h₀ (traced_fdId_fdId inputs h₀ n) hk hkn

/-! ## Waiting -/

section Held

variable {n : Nat} (h₀ : t₀.Reset) (hvalid : (traced t₀ inputs n).core.fdr.drq.valid = true)
  (hmult : (traced t₀ inputs n).core.fdr.drq.ismult = true) (hquiet : HeldQuietly t₀ inputs n)

include h₀ hquiet in
/-- No answer comes while the multiply waits: it would leave, or the clock would be stalled. -/
theorem no_answer {k : Nat} (hk : (traced t₀ inputs n).ledger.fdId ≤ k) (hkn : k < n) :
    (inputs k).multValid = false := by
  by_contra hanswer
  have hanswer : (inputs k).multValid = true := by simpa using hanswer
  have hbusy : Execute.busy (ex (inputs k) (traced t₀ inputs k).core)
    (traced t₀ inputs k).core.er = true := traced_held inputs h₀ hk hkn
  have hstalled := (hquiet k hk hkn).2.2
  rw [hanswer, Bool.true_and] at hstalled
  have hin : (ex (inputs k) (traced t₀ inputs k).core).multValid = true := hanswer
  rw [Execute.busy, hstalled, hin] at hbusy
  simp at hbusy

variable (inputs n) in
include h₀ in
theorem drq_arrival : (traced t₀ inputs n).core.fdr.drq =
    (traced t₀ inputs (traced t₀ inputs n).ledger.fdId).core.fdr.drq :=
  traced_drq_frozen inputs h₀ (traced_fdId_le inputs h₀ n) (traced_fdId_fdId inputs h₀ n)

include h₀ hvalid hmult hquiet in
theorem hold_held : (traced t₀ inputs n).core.fdr.hold = true := by
  have hdrq := drq_arrival inputs n h₀
  have harrive := traced_fdId_fdId inputs h₀ n
  have hle := traced_fdId_le inputs h₀ n
  generalize ha : (traced t₀ inputs n).ledger.fdId = a at hdrq harrive hle
  have hhold : (traced t₀ inputs a).core.fdr.hold = true := by
    rw [hdrq] at hvalid hmult
    cases a with
    | zero =>
      have hreset : (traced t₀ inputs 0).core.fdr.drq.valid = false := h₀.core.fdr.valid
      rw [hreset] at hvalid
      cases hvalid
    | succ m =>
      have hfree : executeBusy (inputs m) (traced t₀ inputs m).core = false := by
        by_contra hb
        have hsucc := traced_fdId_succ inputs h₀ m
        rw [if_pos (by simpa using hb), harrive] at hsucc
        have := traced_fdId_le inputs h₀ m
        omega
      exact hold_enters hfree hvalid hmult
  -- the flag is carried from the arrival to clock `n`
  suffices h : ∀ k, a ≤ k → k ≤ n → (traced t₀ inputs k).core.fdr.hold = true from h n hle le_rfl
  intro k hak
  induction k, hak using Nat.le_induction with
  | base => exact fun _ => hhold
  | succ k hak ih =>
    intro hkn
    obtain ⟨hflush, hall, -⟩ := hquiet k (by omega) (by omega)
    have hbusy := traced_held inputs h₀ (n := n) (k := k) (by omega) (by omega)
    have hanswer := no_answer h₀ hquiet (k := k) (by omega) (by omega)
    exact (hold_stays hbusy hflush hall hanswer).trans (ih (by omega))

include h₀ hvalid hmult hquiet in
theorem answer_of_leaves (hleaves : executeBusy (inputs n) (traced t₀ inputs n).core = false) :
    (inputs n).multValid = true := by
  have hhold : (ex (inputs n) (traced t₀ inputs n).core).fdui.r.hold = true :=
    hold_held h₀ hvalid hmult hquiet
  have hbusy : Execute.busy (ex (inputs n) (traced t₀ inputs n).core)
    (traced t₀ inputs n).core.er = false := hleaves
  rw [Execute.busy, hhold] at hbusy
  simp only [Bool.or_eq_false_iff, Bool.true_and, Bool.not_eq_false'] at hbusy
  exact hbusy.2

end Held

/-! ## The operands -/

/-- A held instruction that has not completed yet sees the same operands. -/
theorem operands_next {k : Nat}
    (hbusy : executeBusy (inputs k) (traced t₀ inputs k).core = true)
    (hnot : (traced t₀ inputs k).completes (inputs k) = false) :
    operandA t₀ inputs (k + 1) = operandA t₀ inputs k ∧
      operandB t₀ inputs (k + 1) = operandB t₀ inputs k := by
  set s := (traced t₀ inputs k).core with hs
  have hnext : (traced t₀ inputs (k + 1)).core = Backend.next (inputs k) s := rfl
  have hread : ∀ rd, rbEn (inputs k) s rd = false := by
    intro rd
    simp [rbEn, hbusy]
  have hrr1 : (Backend.next (inputs k) s).rr1 = s.rr1 := by
    show Regbank.read _ _ (rbEn (inputs k) s s.dr.rd1) _ _ = _
    rw [hread]
    rfl
  have hrr2 : (Backend.next (inputs k) s).rr2 = s.rr2 := by
    show Regbank.read _ _ (rbEn (inputs k) s s.dr.rd2) _ _ = _
    rw [hread]
    rfl
  have halur : (Backend.next (inputs k) s).er.alur = s.er.alur := by
    have hc : Execute.completes (ex (inputs k) s) s.er = false := hnot
    show (if Execute.completes (ex (inputs k) s) s.er then _ else s.er.alur) = _
    rw [hc]
    rfl
  have hfw : (Backend.next (inputs k) s).fdr.alufwa = s.fdr.alufwa ∧
      (Backend.next (inputs k) s).fdr.alufwb = s.fdr.alufwb := ⟨if_pos hbusy, if_pos hbusy⟩
  have hdrq : (Backend.next (inputs k) s).fdr.drq = s.fdr.drq := by
    rw [fdr_drq_next, if_pos hbusy]
  constructor
  · show (if (Backend.next (inputs k) s).fdr.alufwa then (Backend.next (inputs k) s).er.alur
      else (Backend.next (inputs k) s).rr1) = if s.fdr.alufwa then s.er.alur else s.rr1
    rw [hfw.1, halur, hrr1]
  · show (if (Backend.next (inputs k) s).fdr.drq.aluSource = .reg then
        if (Backend.next (inputs k) s).fdr.alufwb then (Backend.next (inputs k) s).er.alur
        else (Backend.next (inputs k) s).rr2
      else (Backend.next (inputs k) s).fdr.drq.imreg) =
      if s.fdr.drq.aluSource = .reg then if s.fdr.alufwb then s.er.alur else s.rr2
      else s.fdr.drq.imreg
    rw [hdrq, hfw.2, halur, hrr2]

/-- A multiply that completes enables the multiplier. -/
theorem enabled_of_completes {k : Nat} (hmult : (traced t₀ inputs k).core.fdr.drq.Mult)
    (h : (traced t₀ inputs k).completes (inputs k) = true) : enabled t₀ inputs k = true := by
  have hc : Execute.completes (ex (inputs k) (traced t₀ inputs k).core)
    (traced t₀ inputs k).core.er = true := h
  have hfault := Execute.completes_doFault _ _ hc
  have henable : (Execute.drq (ex (inputs k) (traced t₀ inputs k).core)).enableAlu = true :=
    hmult.enableAlu
  have hop : (Execute.drq (ex (inputs k) (traced t₀ inputs k).core)).aluOp = .mul := hmult.aluOp
  unfold enabled Execute.multEn Execute.executed
  rw [henable, hop]
  simp only [Execute.completes, Execute.passes, hfault, Bool.false_eq_true, if_false] at hc
  rw [hc]
  rfl

theorem product_low (a b : Word) :
    (a.signExtend 64 * b.signExtend 64).extractLsb 31 0 = a * b := by
  have hlow : ∀ w : Word, (w.signExtend 64).setWidth 32 = w := by
    intro w
    apply BitVec.eq_of_getLsbD_eq
    intro i hi
    simp [BitVec.getLsbD_signExtend, hi]
    omega
  have hcut : ∀ x : BitVec 64, x.extractLsb 31 0 = x.setWidth 32 := fun x =>
    (BitVec.setWidth_eq_extractLsb' (by decide)).symm
  rw [hcut, BitVec.setWidth_mul _ _ (by decide), hlow, hlow]

section Leaves

variable {latency n : Nat} (h₀ : t₀.Reset) (hmul : Multiplier t₀ inputs latency n)
  (hvalid : (traced t₀ inputs n).core.fdr.drq.valid = true)
  (hmult : (traced t₀ inputs n).core.fdr.drq.ismult = true)
  (hquiet : HeldQuietly t₀ inputs n) (halone : ComesAlone t₀ inputs latency n)

include h₀ hmul hquiet halone in
/-- The answer is to the first enable since the multiply came: that of an earlier clock would have
come before. -/
theorem not_enabled_before {j : Nat} (hj : j + latency = n) :
    ∀ i, (traced t₀ inputs n).ledger.fdId ≤ i → i < j → enabled t₀ inputs i = false := by
  intro i
  induction i using Nat.strong_induction_on with
  | h i ih =>
    intro hai hij
    by_contra hen
    have hanswer := hmul.answers i (by omega) (by simpa using hen) (by
      intro i' hi' hlat
      by_cases ha : (traced t₀ inputs n).ledger.fdId ≤ i'
      · exact ih i' hi' ha (by omega)
      · exact halone i' (by omega) (by omega))
    have hpos := hmul.latency_pos
    rw [no_answer h₀ hquiet (by omega) (by omega)] at hanswer
    cases hanswer

include h₀ in
theorem drq_held {k : Nat} (hk : (traced t₀ inputs n).ledger.fdId ≤ k) (hkn : k ≤ n) :
    (traced t₀ inputs k).core.fdr.drq = (traced t₀ inputs n).core.fdr.drq := by
  have hlow := traced_fdId_mono inputs h₀ hk
  have hhigh := traced_fdId_mono inputs h₀ hkn
  rw [traced_fdId_fdId inputs h₀] at hlow
  exact (traced_drq_frozen inputs h₀ hkn (by omega)).symm

include h₀ hmul hvalid hmult hquiet halone in
/-- The product that comes with the answer is that of the operands the multiply came with. -/
theorem answer_product (hanswer : (inputs n).multValid = true) :
    (inputs n).multR = operandA t₀ inputs (traced t₀ inputs n).ledger.fdId *
      operandB t₀ inputs (traced t₀ inputs n).ledger.fdId := by
  obtain ⟨j, hj, hen, hR, -⟩ := hmul.sound n le_rfl hanswer
  have hpos := hmul.latency_pos
  have haj : (traced t₀ inputs n).ledger.fdId ≤ j := by
    by_contra hlt
    have hle := traced_fdId_le inputs h₀ n
    rw [halone j (by omega) (by omega)] at hen
    cases hen
  have hfields := (traced_mults inputs h₀ n).drq hvalid hmult
  have hbefore := not_enabled_before h₀ hmul hquiet halone hj
  have hsame : ∀ k, (traced t₀ inputs n).ledger.fdId ≤ k → k ≤ j →
      operandA t₀ inputs k = operandA t₀ inputs (traced t₀ inputs n).ledger.fdId ∧
        operandB t₀ inputs k = operandB t₀ inputs (traced t₀ inputs n).ledger.fdId := by
    intro k hak
    induction k, hak using Nat.le_induction with
    | base => exact fun _ => ⟨rfl, rfl⟩
    | succ k hak ih =>
      intro hkj
      have hbusy := traced_held inputs h₀ (n := n) hak (by omega)
      have hnot : (traced t₀ inputs k).completes (inputs k) = false := by
        by_contra hc
        have hmk : (traced t₀ inputs k).core.fdr.drq.Mult := by
          rw [drq_held h₀ hak (by omega)]
          exact hfields
        have := enabled_of_completes hmk (by simpa using hc)
        rw [hbefore k hak (by omega)] at this
        cases this
      obtain ⟨hA, hB⟩ := operands_next hbusy hnot
      obtain ⟨hA', hB'⟩ := ih (by omega)
      exact ⟨hA.trans hA', hB.trans hB'⟩
  obtain ⟨hA, hB⟩ := hsame j haj le_rfl
  rw [hR, product, product_low, hA, hB]

theorem Waiting.until_free {c u : Nat} (h : Waiting t₀ inputs c (c + 1)) (hcu : c < u)
    (hport : ∀ k, c < k → k < u → mregwe (inputs k) (traced t₀ inputs k).core = true) :
    Waiting t₀ inputs c u := by
  induction u, hcu using Nat.le_induction with
  | base => exact h
  | succ u hcu ih =>
    exact ((ih fun k hk hku => hport k hk (by omega)).postponed (hport u hcu (by omega))).1

end Leaves

/-- A multiply that is held in peace and comes alone leaves execute with the answer of the
multiplier, and the product of its operands is what is written to its destination. -/
theorem multiply_waits (h₀ : t₀.Reset) {latency n : Nat} (hmul : Multiplier t₀ inputs latency n)
    (hmult : (traced t₀ inputs n).core.fdr.drq.ismult = true)
    (hexecuted : (traced t₀ inputs n).completes (inputs n) = true)
    (hleaves : executeBusy (inputs n) (traced t₀ inputs n).core = false)
    (hquiet : HeldQuietly t₀ inputs n) (halone : ComesAlone t₀ inputs latency n) :
    (inputs n).multValid = true ∧
      ∀ u, n < u → (∀ k, n < k → k < u → mregwe (inputs k) (traced t₀ inputs k).core = true) →
        mregwe (inputs u) (traced t₀ inputs u).core = false →
        rbw (inputs u) (traced t₀ inputs u).core =
          { we := true
            addr := (traced t₀ inputs n).core.fdr.drq.dreg
            data := operandA t₀ inputs (traced t₀ inputs n).ledger.fdId *
              operandB t₀ inputs (traced t₀ inputs n).ledger.fdId } := by
  have hvalid : (traced t₀ inputs n).core.fdr.drq.valid = true :=
    Execute.processed_valid _ _ (Execute.completes_processed _ _ hexecuted)
  have hfields := (traced_mults inputs h₀ n).drq hvalid hmult
  have hanswer := answer_of_leaves h₀ hvalid hmult hquiet hleaves
  have hproduct := answer_product h₀ hmul hvalid hmult hquiet halone hanswer
  refine ⟨hanswer, fun u hnu hport hfree => ?_⟩
  have hwait := (Waiting.first hexecuted hfields.regwe).until_free hnu hport
  have hresult : (Execute.aluOut (ex (inputs n) (traced t₀ inputs n).core)
      (traced t₀ inputs n).core.er).o = (inputs n).multR := by
    have hop : (Execute.drq (ex (inputs n) (traced t₀ inputs n).core)).aluOp = .mul := hfields.aluOp
    unfold Execute.aluOut
    rw [hop]
    rfl
  have hdata : Writeback.result (traced t₀ inputs u).core.er (inputs u).copData =
      (inputs n).multR := by
    unfold Writeback.result
    rw [hwait.source, hfields.regSource]
    exact hwait.alur.trans hresult
  rw [rbw, Writeback.port, hfree, hwait.regwe, hwait.dreg, hdata, hproduct]
  rfl

end Run

/-! ## A multiply by itself, and one in a delay slot -/

/-- `limr r1, 6`, `limr r2, 7` and the instructions of `code`; the multiplier answers in the clocks
of `answers`. -/
def sixBySeven (code : List Opcode) (answers : List Nat) (n : Nat) : BackendInput :=
  { BackendInput.rest (match (0x7061 :: 0x7072 :: code)[n]? with
      | some insn => fetched insn 0 true
      | none => fetched 0 0 false) with
    multValid := decide (n ∈ answers)
    multR := if n ∈ answers then 42 else 0 }

def plainMul : Nat → BackendInput := sixBySeven [0x0B21] [6]

theorem plainMul_multiplier : Multiplier Traced.reset plainMul 2 6 where
  latency_pos := by decide
  sound := by
    intro k hk h
    interval_cases k <;>
      first | exact absurd h (by decide) | exact ⟨4, rfl, by decide, by decide, by decide⟩
  answers := by
    intro j hj
    have hj : j ≤ 4 := by omega
    interval_cases j <;> decide

theorem multiply_waits_plain :
    (plainMul 6).multValid = true ∧
      rbw (plainMul 7) (traced Traced.reset plainMul 7).core = ⟨true, 17, 42⟩ := by
  have h := multiply_waits (n := 6) ⟨Backend.reset_reset, rfl⟩ plainMul_multiplier (by decide)
    (by decide) (by decide) (by
      intro k hk hkn
      interval_cases k <;> decide) (by
      intro k hk
      have hk : k < 4 := hk
      interval_cases k <;> decide)
  refine ⟨h.1, (h.2 7 (by decide) (fun k hk hku => by omega) (by decide)).trans ?_⟩
  exact congrArg₂ (RegWrite.mk true) (by decide) (by decide)

/-- `br` with `mul r2, r1` in its delay slot. -/
def delaySlotMul : Nat → BackendInput := sixBySeven [0x4040, 0x0B21] [7, 8]

theorem delaySlotMul_multiplier : Multiplier Traced.reset delaySlotMul 2 8 where
  latency_pos := by decide
  sound := by
    intro k hk h
    interval_cases k <;>
      first
        | exact absurd h (by decide)
        | exact ⟨5, rfl, by decide, by decide, by decide⟩
        | exact ⟨6, rfl, by decide, by decide, by decide⟩
  answers := by
    intro j hj
    have hj : j ≤ 6 := by omega
    interval_cases j <;> decide

/-- The jump clears the flag of the multiply in its delay slot, which leaves a clock before the
answer and writes something else. -/
theorem delay_slot_multiply_leaves : Traced.reset.Reset ∧
    Multiplier Traced.reset delaySlotMul 2 8 ∧
    (traced Traced.reset delaySlotMul 6).core.fdr.drq.ismult = true ∧
    (traced Traced.reset delaySlotMul 6).completes (delaySlotMul 6) = true ∧
    executeBusy (delaySlotMul 6) (traced Traced.reset delaySlotMul 6).core = false ∧
    (delaySlotMul 6).multValid = false ∧
    (rbw (delaySlotMul 7) (traced Traced.reset delaySlotMul 7).core).data ≠
      operandA Traced.reset delaySlotMul 5 * operandB Traced.reset delaySlotMul 5 :=
  ⟨⟨Backend.reset_reset, rfl⟩, delaySlotMul_multiplier, by decide, by decide, by decide, by decide,
    by decide⟩

end Xtc
