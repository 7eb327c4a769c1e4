import Xtc.Core.Squash

/-!
# WriteOnce — every result reaches its register exactly once

A result waits in the execute registers for the write port.  A load that is answered in the clock
after takes the port first, and the result is written one clock later, from registers that keep an
ALU result or a link address but not a special register value or a coprocessor's data.
-/

namespace Xtc

open Backend

/-- What an instruction computes for its destination in the clock in which it completes. -/
def resultOf (i : BackendInput) (s : Backend) : Word :=
  match s.fdr.drq.regSource with
  | .alu => (Execute.aluOut (ex i s) s.er).o
  | .spr => Execute.sprval (ex i s) s.er
  | .pcnext => s.fdr.drq.fpc
  | .cop => i.copData

namespace Backend

variable {i : BackendInput} {s : Backend}

theorem mregwe_of_loads (hc : LoadsPass i s) (h : loads s = []) : mregwe i s = false := by
  by_contra hw
  obtain ⟨rest, hr⟩ := loads_of_mregwe hc (by simpa using hw)
  rw [h] at hr
  cases hr

/-- The load port is never busy twice in a row. -/
theorem Tracked.loads_after (h : Tracked s) (hc : LoadsPass i s) (hw : mregwe i s = true) :
    loads (Backend.next i s) = [] := by
  obtain ⟨rest, hrest⟩ := loads_of_mregwe hc hw
  cases h.phase with
  | idle hl hf hd => rw [hl] at hrest; cases hrest
  | ready hl hf hd hr => rw [hl] at hrest; cases hrest
  | flying t hl hf hd hr => rw [loads_next hc, queued_loads h hc, hl, hw, hf]; rfl

/-- An instruction that completes leaves, unless it is a multiply. -/
theorem Tracked.leaves (h : Tracked s) (hcomp : Execute.completes (ex i s) s.er = true)
    (hm : s.fdr.drq.ismult = false) : executeBusy i s = false := by
  by_contra hb
  have hheld := (h.held (by simpa using hb) (Execute.completes_processed _ _ hcomp)).1
  rw [hm] at hheld
  cases hheld

end Backend

section Run

variable {t₀ : Traced} {inputs : Nat → BackendInput}

theorem traced_regwe_succ (n : Nat) : (traced t₀ inputs (n + 1)).core.er.regwe =
    if (traced t₀ inputs n).completes (inputs n) then (traced t₀ inputs n).core.fdr.drq.regwe
    else wbBusy (inputs n) (traced t₀ inputs n).core && (traced t₀ inputs n).core.er.regwe := rfl

theorem traced_regwe_gone {a n : Nat} (han : a ≤ n)
    (ha : (traced t₀ inputs a).core.er.regwe = false)
    (hno : ∀ k, a ≤ k → k < n → (traced t₀ inputs k).completes (inputs k) = false) :
    (traced t₀ inputs n).core.er.regwe = false := by
  induction n, han using Nat.le_induction with
  | base => exact ha
  | succ n han ih =>
    have hprev := ih fun k hk hk' => hno k hk (by omega)
    rw [traced_regwe_succ, hno n han (Nat.lt_succ_self n), hprev]
    simp

variable (t₀ inputs) in
/-- The result of the instruction that completed at `c` waits in the execute registers at `n`. -/
structure Waiting (c n : Nat) : Prop where
  regwe : (traced t₀ inputs n).core.er.regwe = true
  dreg : (traced t₀ inputs n).core.er.dreg = (traced t₀ inputs c).core.fdr.drq.dreg
  source : (traced t₀ inputs n).core.er.regSource = (traced t₀ inputs c).core.fdr.drq.regSource
  id : (traced t₀ inputs n).ledger.erId = (traced t₀ inputs c).ledger.fdId
  alur : (traced t₀ inputs n).core.er.alur =
    (Execute.aluOut (ex (inputs c) (traced t₀ inputs c).core) (traced t₀ inputs c).core.er).o
  npc : (traced t₀ inputs n).core.er.npc = (traced t₀ inputs c).core.fdr.drq.fpc

theorem Waiting.first {c : Nat} (hc : (traced t₀ inputs c).completes (inputs c) = true)
    (hwe : (traced t₀ inputs c).core.fdr.drq.regwe = true) : Waiting t₀ inputs c (c + 1) := by
  have hif : ∀ {α : Type} (x y : α),
      (if Execute.completes (ex (inputs c) (traced t₀ inputs c).core) (traced t₀ inputs c).core.er
        then x else y) = x := fun x y => if_pos hc
  exact ⟨(hif _ _).trans hwe, hif _ _, hif _ _, hif _ _, hif _ _, hif _ _⟩

/-- A load that takes the port makes the result wait where it is. -/
theorem Waiting.postponed {c n : Nat} (h : Waiting t₀ inputs c n)
    (hw : mregwe (inputs n) (traced t₀ inputs n).core = true) :
    Waiting t₀ inputs c (n + 1) ∧ (traced t₀ inputs n).completes (inputs n) = false := by
  have hwb : wbBusy (inputs n) (traced t₀ inputs n).core = true := by
    simp [wbBusy, Writeback.busy, hw, h.regwe]
  have hnc : Execute.completes (ex (inputs n) (traced t₀ inputs n).core)
      (traced t₀ inputs n).core.er = false := by
    have hwb' : (ex (inputs n) (traced t₀ inputs n).core).wbBusy = true := hwb
    simp [Execute.completes, Execute.processed, Execute.busyInt, hwb']
  have hif : ∀ {α : Type} (x y : α),
      (if Execute.completes (ex (inputs n) (traced t₀ inputs n).core) (traced t₀ inputs n).core.er
        then x else y) = y := fun x y => if_neg (by simp [hnc])
  refine ⟨⟨(hif _ _).trans ?_, (hif _ _).trans h.dreg, (hif _ _).trans h.source,
    (hif _ _).trans h.id, (hif _ _).trans h.alur, (hif _ _).trans h.npc⟩, hnc⟩
  show (wbBusy (inputs n) (traced t₀ inputs n).core && (traced t₀ inputs n).core.er.regwe) = true
  rw [hwb, h.regwe]
  rfl

/-- The clock in which the result of the instruction completing at `c` is written. -/
def writeClock (t₀ : Traced) (inputs : Nat → BackendInput) (c : Nat) : Nat :=
  if mregwe (inputs (c + 1)) (traced t₀ inputs (c + 1)).core then c + 2 else c + 1

/-- The result waits until its write clock, where the port is free. -/
theorem Waiting.ready (h₀ : t₀.Reset)
    (hok : ∀ n, LoadsPass (inputs n) (traced t₀ inputs n).core) {c : Nat}
    (hc : (traced t₀ inputs c).completes (inputs c) = true)
    (hwe : (traced t₀ inputs c).core.fdr.drq.regwe = true) :
    Waiting t₀ inputs c (writeClock t₀ inputs c) ∧
      mregwe (inputs (writeClock t₀ inputs c)) (traced t₀ inputs (writeClock t₀ inputs c)).core =
        false ∧
      ∀ k, c < k → k < writeClock t₀ inputs c →
        mregwe (inputs k) (traced t₀ inputs k).core = true ∧
          (traced t₀ inputs k).completes (inputs k) = false := by
  have hfirst := Waiting.first hc hwe
  unfold writeClock
  cases hw : mregwe (inputs (c + 1)) (traced t₀ inputs (c + 1)).core with
  | false =>
    refine ⟨hfirst, hw, fun k hk hk' => ?_⟩
    simp only [Bool.false_eq_true, if_false] at hk'
    omega
  | true =>
    obtain ⟨hlater, hnc⟩ := hfirst.postponed hw
    have hloads := (traced_tracked h₀ hok (c + 1)).loads_after (hok (c + 1)) hw
    refine ⟨hlater, mregwe_of_loads (hok (c + 2)) hloads, fun k hk hk' => ?_⟩
    simp only [if_true] at hk'
    obtain rfl : k = c + 1 := by omega
    exact ⟨hw, hnc⟩

/-- An instruction other than a multiply completes in one clock only. -/
theorem traced_completes_once (h₀ : t₀.Reset)
    (hok : ∀ n, LoadsPass (inputs n) (traced t₀ inputs n).core) {c d : Nat}
    (hc : (traced t₀ inputs c).completes (inputs c) = true)
    (hd : (traced t₀ inputs d).completes (inputs d) = true)
    (hid : (traced t₀ inputs d).ledger.fdId = (traced t₀ inputs c).ledger.fdId)
    (hm : (traced t₀ inputs c).core.fdr.drq.ismult = false) : d = c := by
  have htr := traced_tracked h₀ hok
  rcases Nat.lt_trichotomy d c with hlt | heq | hgt
  · have hm' : (traced t₀ inputs d).core.fdr.drq.ismult = false := by
      rw [← traced_drq_frozen inputs h₀ (le_of_lt hlt) hid, hm]
    have hleave := (htr d).leaves hd hm'
    rw [traced_frozen inputs h₀ hid le_rfl hlt] at hleave
    cases hleave
  · exact heq
  · have hleave := (htr c).leaves hc hm
    rw [traced_frozen inputs h₀ hid.symm le_rfl hgt] at hleave
    cases hleave

/-- The only clock that writes on behalf of an instruction that completes once. -/
theorem writeClock_unique (h₀ : t₀.Reset)
    (hok : ∀ n, LoadsPass (inputs n) (traced t₀ inputs n).core) {c u : Nat}
    (hc : (traced t₀ inputs c).completes (inputs c) = true)
    (hwe : (traced t₀ inputs c).core.fdr.drq.regwe = true)
    (honce : ∀ d, (traced t₀ inputs d).completes (inputs d) = true →
      (traced t₀ inputs d).ledger.fdId = (traced t₀ inputs c).ledger.fdId → d = c)
    (hu : (traced t₀ inputs u).WriteOf (traced t₀ inputs c).ledger.fdId (inputs u)) :
    u = writeClock t₀ inputs c := by
  obtain ⟨hwait, hport, hbefore⟩ := Waiting.ready h₀ hok hc hwe
  obtain ⟨hwrites, hwriter⟩ := hu
  cases hload : mregwe (inputs u) (traced t₀ inputs u).core with
  | true =>
    -- a load's answer: the load would be the instruction itself, which has a result of its own
    obtain ⟨d, -, hid, hl, hb⟩ := traced_writer_load inputs h₀ hok u hload
    obtain rfl := honce d ((hok d).completes hl hb) (hid.trans hwriter)
    rw [((traced_tracked h₀ hok d).load_fields hl).2.2.1] at hwe
    cases hwe
  | false =>
    have her : (traced t₀ inputs u).core.er.regwe = true := by
      simpa [rbw, Writeback.port, hload] using hwrites
    have herId : (traced t₀ inputs u).ledger.erId = (traced t₀ inputs c).ledger.fdId := by
      rw [← hwriter, Traced.writer, hload]
      rfl
    obtain ⟨d, hdu, hd, hid, hnone⟩ := traced_erId inputs h₀ u her
    obtain rfl := honce d hd (hid.trans herId)
    rcases Nat.lt_trichotomy u (writeClock t₀ inputs d) with hlt | heq | hgt
    · rw [(hbefore u hdu hlt).1] at hload
      cases hload
    · exact heq
    · -- after the write nothing is left to write until an instruction completes
      have hdw : d < writeClock t₀ inputs d := by
        unfold writeClock
        split <;> omega
      have hgone : (traced t₀ inputs (writeClock t₀ inputs d + 1)).core.er.regwe = false := by
        rw [traced_regwe_succ, hnone _ hdw hgt, wbBusy, Writeback.busy, hport]
        simp
      have := traced_regwe_gone (show writeClock t₀ inputs d + 1 ≤ u from hgt) hgone
        fun k hk hk' => hnone k (by omega) hk'
      rw [her] at this
      cases this

/-- Every instruction with a destination writes it exactly once and with the value it computed: a
multiply if it is not held, a special register value if it is not postponed, and a coprocessor's
data if they are still there when they are written. -/
theorem result_written_once (h₀ : t₀.Reset)
    (hok : ∀ n, LoadsPass (inputs n) (traced t₀ inputs n).core) (c : Nat)
    (hc : (traced t₀ inputs c).completes (inputs c) = true)
    (hwe : (traced t₀ inputs c).core.fdr.drq.regwe = true)
    (hmult : (traced t₀ inputs c).core.fdr.drq.ismult = true →
      ∀ d, (traced t₀ inputs d).completes (inputs d) = true →
        (traced t₀ inputs d).ledger.fdId = (traced t₀ inputs c).ledger.fdId → d = c)
    (hspr : (traced t₀ inputs c).core.fdr.drq.regSource = .spr →
      mregwe (inputs (c + 1)) (traced t₀ inputs (c + 1)).core = false)
    (hcop : (traced t₀ inputs c).core.fdr.drq.regSource = .cop →
      (inputs (writeClock t₀ inputs c)).copData = (inputs c).copData) :
    ∃ u, (traced t₀ inputs u).WriteOf (traced t₀ inputs c).ledger.fdId (inputs u) ∧
      rbw (inputs u) (traced t₀ inputs u).core =
        { we := true
          addr := (traced t₀ inputs c).core.fdr.drq.dreg
          data := resultOf (inputs c) (traced t₀ inputs c).core } ∧
      ∀ u', (traced t₀ inputs u').WriteOf (traced t₀ inputs c).ledger.fdId (inputs u') →
        u' = u := by
  obtain ⟨hwait, hport, -⟩ := Waiting.ready h₀ hok hc hwe
  have hrbw :
      rbw (inputs (writeClock t₀ inputs c)) (traced t₀ inputs (writeClock t₀ inputs c)).core =
      { we := true
        addr := (traced t₀ inputs c).core.fdr.drq.dreg
        data := resultOf (inputs c) (traced t₀ inputs c).core } := by
    have hdata : Writeback.result (traced t₀ inputs (writeClock t₀ inputs c)).core.er
        (inputs (writeClock t₀ inputs c)).copData =
          resultOf (inputs c) (traced t₀ inputs c).core := by
      unfold Writeback.result resultOf
      rw [hwait.source]
      cases hsrc : (traced t₀ inputs c).core.fdr.drq.regSource with
      | alu => exact hwait.alur
      | spr =>
        have hclock : writeClock t₀ inputs c = c + 1 := by simp [writeClock, hspr hsrc]
        rw [hclock]
        rfl
      | pcnext => exact hwait.npc
      | cop => exact hcop hsrc
    rw [rbw, Writeback.port, hport, hwait.regwe, hwait.dreg, hdata]
    rfl
  refine ⟨writeClock t₀ inputs c, ⟨by rw [hrbw], ?_⟩, hrbw, fun u' hu' => ?_⟩
  · rw [Traced.writer, hport, hwait.id]
    rfl
  · refine writeClock_unique h₀ hok hc hwe (fun d hd hid => ?_) hu'
    cases hm : (traced t₀ inputs c).core.fdr.drq.ismult with
    | true => exact hmult hm d hd hid
    | false => exact traced_completes_once h₀ hok hc hd hid hm

end Run

/-- The second instruction completes in clock 3, while the result of the first is written. -/
theorem result_written_once_addi :
    (traced Traced.reset twoAddi 2).completes (twoAddi 2) = true ∧
      (traced Traced.reset twoAddi 3).completes (twoAddi 3) = true ∧
      ∃ u, (traced Traced.reset twoAddi u).WriteOf (traced Traced.reset twoAddi 3).ledger.fdId
          (twoAddi u) ∧
        rbw (twoAddi u) (traced Traced.reset twoAddi u).core =
          { we := true
            addr := (traced Traced.reset twoAddi 3).core.fdr.drq.dreg
            data := resultOf (twoAddi 3) (traced Traced.reset twoAddi 3).core } ∧
        ∀ u', (traced Traced.reset twoAddi u').WriteOf (traced Traced.reset twoAddi 3).ledger.fdId
          (twoAddi u') → u' = u :=
  ⟨by decide, by decide, result_written_once ⟨Backend.reset_reset, rfl⟩
    (fun n =>
      ((traced_calm Traced.reset_calm twoAddi_quiet n).squashing (twoAddi_quiet n)).toLoadsPass)
    3 (by decide) (by decide) (fun h => absurd h (by decide)) (fun h => absurd h (by decide))
    (fun h => absurd h (by decide))⟩

/-- A load that is answered in clock 4, `rspr r1, psr` behind it, which completes in clock 3, and
`addi r5, 0` behind that. -/
def postponedRspr (n : Nat) : BackendInput :=
  match n with
  | 0 => .rest (fetched 0x1821 0 true)
  | 1 => .rest (fetched 0x3C11 0 true)
  | 2 => .rest (fetched 0x5005 0 true)
  | 4 => { BackendInput.rest (fetched 0 0 false) with busAck := true }
  | _ => .rest (fetched 0 0 false)

/-- The write port takes the special register that the instruction behind happens to name. -/
theorem postponed_rspr_writes_other :
    (traced Traced.reset postponedRspr 3).completes (postponedRspr 3) = true ∧
      (traced Traced.reset postponedRspr 3).core.fdr.drq.regwe = true ∧
      ¬ ∃ u, (traced Traced.reset postponedRspr u).WriteOf
          (traced Traced.reset postponedRspr 3).ledger.fdId (postponedRspr u) ∧
        rbw (postponedRspr u) (traced Traced.reset postponedRspr u).core =
          { we := true
            addr := (traced Traced.reset postponedRspr 3).core.fdr.drq.dreg
            data := resultOf (postponedRspr 3) (traced Traced.reset postponedRspr 3).core } ∧
        ∀ u', (traced Traced.reset postponedRspr u').WriteOf
          (traced Traced.reset postponedRspr 3).ledger.fdId (postponedRspr u') → u' = u := by
  refine ⟨by decide, by decide, ?_⟩
  rintro ⟨u, -, hrbw, honly⟩
  obtain rfl := honly 5 ⟨by decide, by decide⟩
  have hdata := congrArg RegWrite.data hrbw
  revert hdata
  decide

end Xtc
