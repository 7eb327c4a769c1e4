import Xtc.Core.Ledger

/-!
# Squash — an instruction that must not execute writes no register

A load that fails its condition or is squashed gives the scoreboard back through the load port, and
the write port takes that for data.  A trap taken while the instruction in front of execute is held
does not keep it from completing later, and a held multiply has written before.  In a run without
these every register write belongs to an instruction that passed and was not squashed.
-/

namespace Xtc

open Backend

/-- The clock fails or squashes the instruction in front of execute. -/
def Voided (i : BackendInput) (t : Traced) : Prop :=
  t.core.fdr.drq.valid = true ∧
    (trap i t.core = true ∨
      Execute.processed (ex i t.core) t.core.er = true ∧
        Execute.passes (ex i t.core) t.core.er ≠ .one)

/-- The clocks in which a trap squashes what it has to: loads pass, and the instruction a trap finds
in front of execute leaves with it and is no multiply. -/
structure Squashing (i : BackendInput) (s : Backend) : Prop extends LoadsPass i s where
  trap : trap i s = true → s.fdr.drq.valid = true →
    executeBusy i s = false ∧ s.fdr.drq.ismult = false

namespace Backend

variable {i : BackendInput} {s : Backend}

/-- Nothing that stays in front of execute changes the status, short of a trap. -/
theorem Tracked.psr_held (h : Tracked s) (hb : executeBusy i s = true) (hf : trap i s = false) :
    (Backend.next i s).er.psr = s.er.psr := by
  have hnext : (Backend.next i s).er.psr = Execute.psrBefore (ex i s) s.er := by
    show (Execute.next (ex i s) s.er).psr = _
    rw [Execute.next_psr, if_neg (by simpa [trap] using hf)]
  rw [hnext]
  cases hp : Execute.processed (ex i s) s.er with
  | false => simp [Execute.psrBefore, Execute.returns, Execute.completes, Execute.sprLoad, hp]
  | true =>
    obtain ⟨hm, hwf⟩ := h.held hb hp
    obtain ⟨-, -, -, hflags, hspr, hjump, -⟩ := hwf.mult hm
    have hflags' : (Execute.drq (ex i s)).modifyFlags = false := hflags
    have hspr' : (Execute.drq (ex i s)).sprwe = false := hspr
    have hjump' : (Execute.drq (ex i s)).isJump = false := hjump
    simp [Execute.psrBefore, Execute.returns, Execute.sprLoad, Execute.sprSelect, hflags', hspr',
      hjump']

end Backend

section Run

variable {t₀ : Traced} {inputs : Nat → BackendInput}

/-- While an instruction is held the status stands still. -/
theorem traced_psr_held (h₀ : t₀.Reset)
    (hok : ∀ n, Squashing (inputs n) (traced t₀ inputs n).core) {m n : Nat} (hmn : m ≤ n)
    (hv : (traced t₀ inputs m).core.fdr.drq.valid = true)
    (hid : (traced t₀ inputs m).ledger.fdId = (traced t₀ inputs n).ledger.fdId) :
    (traced t₀ inputs n).core.er.psr = (traced t₀ inputs m).core.er.psr := by
  induction n, hmn using Nat.le_induction with
  | base => rfl
  | succ n hmn ih =>
    have hb := traced_frozen inputs h₀ hid hmn (Nat.lt_succ_self n)
    have hid' : (traced t₀ inputs m).ledger.fdId = (traced t₀ inputs n).ledger.fdId := by
      rw [hid, traced_fdId_succ inputs h₀, if_pos hb]
    have hvn : (traced t₀ inputs n).core.fdr.drq.valid = true := by
      rw [traced_drq_frozen inputs h₀ hmn hid', hv]
    have hf : trap (inputs n) (traced t₀ inputs n).core = false := by
      by_contra hf
      have := ((hok n).trap (by simpa using hf) hvn).1
      rw [hb] at this
      cases this
    have htr := traced_tracked h₀ (fun k => (hok k).toLoadsPass) n
    rw [traced_core_succ, htr.psr_held hb hf, ih hid']

/-- An instruction that completes in one clock is voided in none. -/
theorem traced_not_voided (h₀ : t₀.Reset)
    (hok : ∀ n, Squashing (inputs n) (traced t₀ inputs n).core) {c t : Nat}
    (hc : (traced t₀ inputs c).completes (inputs c) = true)
    (hid : (traced t₀ inputs t).ledger.fdId = (traced t₀ inputs c).ledger.fdId) :
    ¬ Voided (inputs t) (traced t₀ inputs t) := by
  rintro ⟨hvt, hvoid⟩
  have hproc := Execute.completes_processed _ _ hc
  have hvc : (traced t₀ inputs c).core.fdr.drq.valid = true := Execute.processed_valid _ _ hproc
  -- the status, and so the condition, is the same in both clocks
  have hpsr : (traced t₀ inputs t).core.er.psr = (traced t₀ inputs c).core.er.psr ∧
      (traced t₀ inputs t).core.fdr.drq = (traced t₀ inputs c).core.fdr.drq := by
    rcases Nat.le_total t c with htc | hct
    · exact ⟨(traced_psr_held h₀ hok htc hvt hid).symm, (traced_drq_frozen inputs h₀ htc hid).symm⟩
    · exact ⟨traced_psr_held h₀ hok hct hvc hid.symm, traced_drq_frozen inputs h₀ hct hid.symm⟩
  have hnotrap : trap (inputs t) (traced t₀ inputs t).core = false := by
    by_contra hf
    obtain ⟨hb, hm⟩ := (hok t).trap (by simpa using hf) hvt
    rcases Nat.lt_trichotomy t c with htc | rfl | hct
    · rw [traced_frozen inputs h₀ hid le_rfl htc] at hb
      cases hb
    · exact hf (Execute.completes_doFault _ _ hc)
    · -- it stayed after completing, so it is a multiply
      have hbc := traced_frozen inputs h₀ hid.symm le_rfl hct
      have hmc := ((traced_tracked h₀ (fun k => (hok k).toLoadsPass) c).held hbc hproc).1
      rw [hpsr.2, hmc] at hm
      cases hm
  rcases hvoid with hf | ⟨-, hne⟩
  · rw [hnotrap] at hf
    cases hf
  · apply hne
    have hpass : Execute.passes (ex (inputs c) (traced t₀ inputs c).core)
        (traced t₀ inputs c).core.er = .one := by
      simp only [Traced.completes, Execute.completes, Bool.and_eq_true, beq_iff_eq] at hc
      exact hc.2
    have hfc := Execute.completes_doFault _ _ hc
    have hft : Execute.doFault (ex (inputs t) (traced t₀ inputs t).core)
        (traced t₀ inputs t).core.er = false := hnotrap
    have hclause : (Execute.drq (ex (inputs t) (traced t₀ inputs t).core)).conditionClause =
        (Execute.drq (ex (inputs c) (traced t₀ inputs c).core)).conditionClause :=
      congrArg DecodeRegs.conditionClause hpsr.2
    rw [Execute.passes, hfc] at hpass
    rw [Execute.passes, hft, hpsr.1, hclause]
    exact hpass

/-- Every register write belongs to an instruction that passed its condition and that no clock
fails or squashes. -/
theorem writes_attributed (h₀ : t₀.Reset)
    (hok : ∀ n, Squashing (inputs n) (traced t₀ inputs n).core) (u : Nat)
    (hwe : (rbw (inputs u) (traced t₀ inputs u).core).we = true) :
    ∃ c < u, (traced t₀ inputs c).completes (inputs c) = true ∧
      (traced t₀ inputs c).ledger.fdId = (traced t₀ inputs u).writer (inputs u) ∧
      ∀ t, (traced t₀ inputs t).ledger.fdId = (traced t₀ inputs u).writer (inputs u) →
        ¬ Voided (inputs t) (traced t₀ inputs t) := by
  have hloads : ∀ n, LoadsPass (inputs n) (traced t₀ inputs n).core := fun n => (hok n).toLoadsPass
  have hfrom : ∃ c < u, (traced t₀ inputs c).completes (inputs c) = true ∧
      (traced t₀ inputs c).ledger.fdId = (traced t₀ inputs u).writer (inputs u) := by
    cases hm : mregwe (inputs u) (traced t₀ inputs u).core with
    | true =>
      obtain ⟨c, hcu, hid, hl, hb⟩ := traced_writer_load inputs h₀ hloads u hm
      exact ⟨c, hcu, (hloads c).completes hl hb, hid⟩
    | false =>
      have her : (traced t₀ inputs u).core.er.regwe = true := by
        simpa [rbw, Writeback.port, hm] using hwe
      obtain ⟨c, hcu, hc, hid, -⟩ := traced_erId inputs h₀ u her
      exact ⟨c, hcu, hc, by rw [hid, Traced.writer, hm]; rfl⟩
  obtain ⟨c, hcu, hc, hid⟩ := hfrom
  exact ⟨c, hcu, hc, hid, fun t ht => traced_not_voided h₀ hok hc (ht.trans hid.symm)⟩

end Run

/-! ## Quiet runs -/

structure DecodeRegs.Plain (d : DecodeRegs) : Prop where
  blocks : d.blocks = false
  priv : d.priv = false
  swi : d.decoded ≠ .swi
  ismult : d.ismult = false

/-- Nothing comes from outside, and the fetched instruction is plain. -/
structure BackendInput.Quiet (i : BackendInput) : Prop where
  int : i.int = false
  nmi : i.nmi = false
  copFault : i.copFault = false
  multValid : i.multValid = false
  blocks : (decodeDec i.fui).blocks = false
  priv : (decodeDec i.fui).priv = false
  swi : (decodeDec i.fui).op ≠ .swi
  ismult : (decodeDec i.fui).ismult = false

structure Backend.Calm (s : Backend) : Prop where
  dr : s.dr.Plain
  fd : s.fdr.drq.valid = true → s.fdr.drq.Plain
  fault : s.mr.fault = false

section Quiet

variable {i : BackendInput} {s : Backend}

theorem decodeNext_plain (hi : i.Quiet) (h : s.dr.Plain) (freeze flush : Bool) :
    (decodeNext i.fui freeze flush s.dr).Plain := by
  unfold decodeNext
  cases flush with
  | true =>
    refine ⟨rfl, rfl, ?_, rfl⟩
    cases hv : i.fui.valid && !freeze with
    | true => simpa [decodeFlush, hv, decodeLoad] using hi.swi
    | false => cases freeze <;> simpa [decodeFlush, hv] using h.swi
  | false =>
    cases hv : i.fui.valid && !freeze with
    | true => exact ⟨hi.blocks, hi.priv, hi.swi, hi.ismult⟩
    | false => cases freeze <;> exact ⟨h.blocks, h.priv, h.swi, h.ismult⟩

theorem Backend.Calm.next (hi : i.Quiet) (h : s.Calm) : (Backend.next i s).Calm where
  dr := decodeNext_plain hi h.dr _ _
  fd := by
    rw [fdr_drq_next]
    split
    · exact h.fd
    · exact fun _ => ⟨h.dr.blocks, h.dr.priv, h.dr.swi, h.dr.ismult⟩
  fault := by
    show (Memory.next _ _ _).fault = false
    unfold Memory.next
    split <;> rfl

theorem Backend.Calm.trap (hi : i.Quiet) (h : s.Calm) : Backend.trap i s = false := by
  have hint : (ex i s).int = false := hi.int
  have hnmi : (ex i s).nmi = false := hi.nmi
  have hcop : (ex i s).copFault = false := hi.copFault
  have hmem : (ex i s).memFault = false := h.fault
  cases hv : s.fdr.drq.valid with
  | false =>
    have hv' : (ex i s).fdui.valid = false := hv
    simp [Backend.trap, Execute.doFault, Execute.privFault, Execute.swi, Execute.interrupt,
      Execute.nmiTaken, hint, hnmi, hcop, hmem, hv']
  | true =>
    have hpriv : (Execute.drq (ex i s)).priv = false := (h.fd hv).priv
    have hswi : (Execute.drq (ex i s)).decoded ≠ .swi := (h.fd hv).swi
    simp [Backend.trap, Execute.doFault, Execute.privFault, Execute.swi, Execute.interrupt,
      Execute.nmiTaken, hint, hnmi, hcop, hmem, hpriv, hswi]

theorem Backend.Calm.squashing (hi : i.Quiet) (h : s.Calm) : Squashing i s where
  pass := fun hl => by
    simp only [fdLoad, Bool.and_eq_true] at hl
    rw [(h.fd hl.1).blocks] at hl
    cases hl.2
  mult := by simp [misheld, hi.multValid]
  trap := fun ht => by
    rw [h.trap hi] at ht
    cases ht

end Quiet

theorem traced_calm {t₀ : Traced} {inputs : Nat → BackendInput} (h₀ : t₀.core.Calm)
    (hi : ∀ n, (inputs n).Quiet) (n : Nat) : (traced t₀ inputs n).core.Calm :=
  Run.invariant (fun t : Traced => t.core.Calm) (fun i _ => i.Quiet) h₀
    (fun _ _ hi h => h.next hi) n fun k _ => hi k

def Traced.reset : Traced := ⟨Backend.reset, Ledger.start⟩

theorem Traced.reset_calm : Traced.reset.core.Calm where
  dr := ⟨rfl, rfl, by decide, rfl⟩
  fd := fun h => absurd h (by decide)
  fault := rfl

/-- `addi r1, 5` and `addi r1, 7` behind it. -/
def twoAddi (n : Nat) : BackendInput :=
  match n with
  | 0 => .rest (fetched 0x5051 0 true)
  | 1 => .rest (fetched 0x5071 0 true)
  | _ => .rest (fetched 0 0 false)

theorem rest_quiet : (BackendInput.rest (fetched 0 0 false)).Quiet :=
  ⟨rfl, rfl, rfl, rfl, by decide, by decide, by decide, by decide⟩

theorem twoAddi_quiet (n : Nat) : (twoAddi n).Quiet := by
  match n with
  | 0 | 1 => exact ⟨rfl, rfl, rfl, rfl, by decide, by decide, by decide, by decide⟩
  | _ + 2 => exact rest_quiet

/-- In clocks 3 and 4 the two instructions write, the second one after the first. -/
theorem writes_attributed_addi :
    (rbw (twoAddi 3) (traced Traced.reset twoAddi 3).core).we = true ∧
      (traced Traced.reset twoAddi 3).writer (twoAddi 3) <
        (traced Traced.reset twoAddi 4).writer (twoAddi 4) ∧
      ∃ c < 4, (traced Traced.reset twoAddi c).completes (twoAddi c) = true ∧
        (traced Traced.reset twoAddi c).ledger.fdId =
          (traced Traced.reset twoAddi 4).writer (twoAddi 4) ∧
        ∀ t, (traced Traced.reset twoAddi t).ledger.fdId =
            (traced Traced.reset twoAddi 4).writer (twoAddi 4) →
          ¬ Voided (twoAddi t) (traced Traced.reset twoAddi t) :=
  ⟨by decide, by decide, writes_attributed ⟨Backend.reset_reset, rfl⟩
    (fun n => (traced_calm Traced.reset_calm twoAddi_quiet n).squashing (twoAddi_quiet n)) 4
    (by decide)⟩

/-- A load under a condition that is false out of reset, and nothing behind it. -/
def failedLoad (n : Nat) : BackendInput :=
  match n with
  | 0 => .rest (fetched 0x9821 0x0200 true)
  | _ => .rest (fetched 0 0 false)

/-- The register bank is written on behalf of the load that failed. -/
theorem failed_load_writes :
    ¬ ((rbw (failedLoad 2) (traced Traced.reset failedLoad 2).core).we = true →
      ∃ c < 2, (traced Traced.reset failedLoad c).completes (failedLoad c) = true ∧
        (traced Traced.reset failedLoad c).ledger.fdId =
          (traced Traced.reset failedLoad 2).writer (failedLoad 2) ∧
        ∀ t, (traced Traced.reset failedLoad t).ledger.fdId =
            (traced Traced.reset failedLoad 2).writer (failedLoad 2) →
          ¬ Voided (failedLoad t) (traced Traced.reset failedLoad t)) := by
  intro h
  obtain ⟨c, -, -, -, hvoid⟩ := h (by decide)
  apply hvoid 2 (by decide)
  exact ⟨by decide, .inr ⟨by decide, by decide⟩⟩

end Xtc
