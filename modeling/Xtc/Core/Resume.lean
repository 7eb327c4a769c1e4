import Xtc.Core.Processor

/-!
# Resume — the processor among its caches, memory and coprocessors

`xtc.vhd` does not connect the `trapaddr` output of execute, so the address that `cop_sys` keeps for
the way back from a trap is whatever the open wire carries.  A program is therefore undisturbed by
the interrupt lines exactly as far as no interrupt is taken: the two runs then agree in everything.
-/

namespace Xtc

/-! ## Lines that are not taken -/

namespace Execute

section

variable {e : ExecuteInput} {er : ExecuteRegs}

/-- The same clock with both interrupt lines low. -/
def unlined (e : ExecuteInput) : ExecuteInput := { e with int := false, nmi := false }

structure Untaken (e : ExecuteInput) (er : ExecuteRegs) : Prop where
  int : interrupt e er = false
  nmi : nmiTaken e er = false

theorem interrupt_unlined : interrupt (unlined e) er = false := by
  simp [interrupt, unlined]

theorem nmiTaken_unlined : nmiTaken (unlined e) er = false := by
  simp [nmiTaken, unlined]

variable (h : Untaken e er)
include h

theorem Untaken.doFault : doFault (unlined e) er = doFault e er := by
  simp only [Execute.doFault, interrupt_unlined, nmiTaken_unlined, h.int, h.nmi]
  rfl

theorem Untaken.faultAddress : faultAddress (unlined e) er = faultAddress e er := by
  simp only [Execute.faultAddress, interrupt_unlined, nmiTaken_unlined, h.int, h.nmi]
  rfl

theorem Untaken.passes : passes (unlined e) er = passes e er := by
  simp only [Execute.passes, h.doFault]
  rfl

theorem Untaken.busyInt : busyInt (unlined e) er = busyInt e er := by
  simp only [Execute.busyInt, Execute.copEn, h.passes]
  rfl

theorem Untaken.processed : processed (unlined e) er = processed e er := by
  simp only [Execute.processed, h.busyInt]
  rfl

theorem Untaken.completes : completes (unlined e) er = completes e er := by
  simp only [Execute.completes, h.processed, h.passes]

theorem Untaken.executed : executed (unlined e) er = executed e er := by
  simp only [Execute.executed, h.processed]
  rfl

theorem Untaken.busy : busy (unlined e) er = busy e er := by
  simp only [Execute.busy, h.busyInt]
  rfl

theorem Untaken.next : next (unlined e) er = next e er := by
  simp only [Execute.next, trapEntry, exceptReturn, sprWrite, result, start, sprLoad,
    nmiTaken_unlined, h.nmi, h.doFault, h.faultAddress, h.processed, h.completes]
  rfl

end

end Execute

namespace Backend

section

variable {i : BackendInput} {s : Backend}

def unlined (i : BackendInput) : BackendInput := { i with int := false, nmi := false }

abbrev Untaken (i : BackendInput) (s : Backend) : Prop := Execute.Untaken (ex i s) s.er

variable (h : Untaken i s)
include h

theorem access_unlined : access (unlined i) s = access i s := by
  -- whether a line is taken does not depend on the write port
  have h' : Execute.Untaken (executeIn i s false) s.er := ⟨h.int, h.nmi⟩
  have hpasses : Execute.passes (executeIn (unlined i) s false) s.er =
      Execute.passes (executeIn i s false) s.er := h'.passes
  simp only [access, accessOf, Execute.dataAccess, Execute.memSprwe, Execute.clrreg, hpasses]
  rfl

theorem mregwe_unlined : mregwe (unlined i) s = mregwe i s := by
  simp only [mregwe, access_unlined h]
  rfl

theorem mreg_unlined : mreg (unlined i) s = mreg i s := by
  simp only [mreg, access_unlined h]
  rfl

theorem ex_unlined : ex (unlined i) s = Execute.unlined (ex i s) := by
  simp only [ex, wbBusy, mregwe_unlined h]
  rfl

theorem rbw_unlined : rbw (unlined i) s = rbw i s := by
  simp only [rbw, mregwe_unlined h, mreg_unlined h]
  rfl

theorem executeBusy_unlined : executeBusy (unlined i) s = executeBusy i s := by
  simp only [executeBusy, ex_unlined h, h.busy]

theorem jump_unlined : jump (unlined i) s = jump i s := by
  simp only [jump, ex_unlined h]
  rfl

theorem trap_unlined : trap (unlined i) s = trap i s := by
  simp only [trap, ex_unlined h, h.doFault]

theorem rbEn_unlined (rd : Bool) : rbEn (unlined i) s rd = rbEn i s rd := by
  simp only [rbEn, flushfd, executeBusy_unlined h, jump_unlined h, trap_unlined h]

theorem allvalid_unlined : allvalid (unlined i) s = allvalid i s := by
  simp only [allvalid, rbEn_unlined h]

theorem next_unlined : next (unlined i) s = next i s := by
  have hclrhold : Execute.clrhold (ex (unlined i) s) s.er = Execute.clrhold (ex i s) s.er := by
    rw [ex_unlined h]
    rfl
  have hexecuted : Execute.executed (ex (unlined i) s) s.er = Execute.executed (ex i s) s.er := by
    rw [ex_unlined h, h.executed]
  have her : Execute.next (ex (unlined i) s) s.er = Execute.next (ex i s) s.er := by
    rw [ex_unlined h, h.next]
  simp only [next, freezeDecoder, fdControl, flushfd, isBlocking, cleans, hclrhold, hexecuted, her,
    rbw_unlined h, rbEn_unlined h, allvalid_unlined h, executeBusy_unlined h, jump_unlined h,
    trap_unlined h, access_unlined h, mregwe_unlined h, mreg_unlined h]
  rfl

end

end Backend

/-! ## The processor in its surroundings -/

/-- What the caches, the memory, the coprocessors and the multiplier see of a clock. -/
structure ProcessorOutput where
  fr : FetchRegs
  enable : Bool
  abort : Bool
  request : MemoryRegs
  copEn : Bool
  copWr : Bool
  copReg : BitVec 4
  copId : BitVec 2
  enableAlu : Bool
  lhs : Word
  rhs : Word
  istrap : Bool

def Processor.output (i : ProcessorInput) (p : Processor) : ProcessorOutput where
  fr := p.fr
  enable := !Backend.freezeDecoder i.env p.back
  abort := p.jump i
  request := p.back.mr
  copEn := Execute.copEn (p.ex i) p.back.er
  copWr := p.back.fdr.drq.copWr
  copReg := p.back.fdr.drq.copReg
  copId := p.back.fdr.drq.copId
  enableAlu := Execute.executed (p.ex i) p.back.er && p.back.fdr.drq.enableAlu
  lhs := Execute.lhs (p.ex i) p.back.er
  rhs := Execute.rhs (p.ex i) p.back.er
  istrap := p.trap i

namespace Processor

section

variable {i : ProcessorInput} {p : Processor}

def unlined (i : ProcessorInput) : ProcessorInput := { i with env := Backend.unlined i.env }

abbrev Untaken (i : ProcessorInput) (p : Processor) : Prop := Execute.Untaken (ex i p) p.back.er

variable (h : Untaken i p)
include h

theorem ex_unlined : ex (unlined i) p = Execute.unlined (ex i p) :=
  Backend.ex_unlined (i := i.env) h

theorem trap_unlined : trap (unlined i) p = trap i p := Backend.trap_unlined (i := i.env) h

theorem executeBusy_unlined : executeBusy (unlined i) p = executeBusy i p :=
  Backend.executeBusy_unlined (i := i.env) h

theorem fetchIn_unlined : fetchIn (unlined i) p = fetchIn i p := by
  have hfreeze : Backend.freezeDecoder (Backend.unlined i.env) p.back =
      Backend.freezeDecoder i.env p.back := by
    simp only [Backend.freezeDecoder, Backend.executeBusy_unlined (i := i.env) h,
      Backend.allvalid_unlined (i := i.env) h]
  have hjump : Backend.jump (Backend.unlined i.env) p.back = Backend.jump i.env p.back :=
    Backend.jump_unlined h
  simp only [fetchIn, unlined, hfreeze, hjump]

theorem next_unlined : next (unlined i) p = next i p := by
  have hback : backIn (unlined i) p = Backend.unlined (backIn i p) := by
    simp only [backIn, fetchIn_unlined h]
    rfl
  simp only [next, fetchIn_unlined h, hback, Backend.next_unlined (i := backIn i p) h]

theorem output_unlined : output (unlined i) p = output i p := by
  have henable := congrArg FetchInput.freeze (fetchIn_unlined h)
  have habort := congrArg FetchInput.jump (fetchIn_unlined h)
  simp only [fetchIn] at henable habort
  simp only [output, jump, henable, habort, trap_unlined h, ex_unlined h, Execute.copEn, h.passes,
    h.executed]
  rfl

end

end Processor

/-- The program is in the memory of its surroundings, and so are the stalls. -/
structure Environment (ε : Type) where
  drive : ε → Processor → ProcessorInput
  -- the level of the open wire
  trapaddr : ε → Word
  step : ε → ProcessorOutput → ε

/-- Where an instruction that leaves execute belongs. -/
inductive Place
  | program
  | handler
  -- the delay slot of the handler's `jmpe`
  | leaving
  deriving DecidableEq

structure System (ε : Type) where
  proc : Processor
  -- the register of `cop_sys`
  trappc : Word
  env : ε
  place : Place
  -- the addresses of the instructions the program has completed
  done : List Word

namespace System

variable {ε : Type}

section

variable (E : Environment ε) (lines : Bool × Bool) (s : System ε)

def input : ProcessorInput :=
  let i := E.drive s.env s.proc
  { i with env := { i.env with int := lines.1, nmi := lines.2, trappc := s.trappc } }

def completed : Bool :=
  Execute.completes (s.proc.ex (input E lines s)) s.proc.back.er &&
    !s.proc.executeBusy (input E lines s)

def returned : Bool :=
  Execute.returns (s.proc.ex (input E lines s)) s.proc.back.er

def nextPlace : Place :=
  if s.proc.trap (input E lines s) then .handler
  else
    match s.place with
    | .program => .program
    | .handler => if returned E lines s then .leaving else .handler
    | .leaving => if completed E lines s then .program else .leaving

def next : System ε where
  proc := s.proc.next (input E lines s)
  trappc := if s.proc.trap (input E lines s) then E.trapaddr s.env else s.trappc
  env := E.step s.env (s.proc.output (input E lines s))
  place := nextPlace E lines s
  done := if completed E lines s && s.place = .program then s.done ++ [s.proc.back.fdr.drq.pc]
    else s.done

def taken : Bool :=
  Execute.interrupt (s.proc.ex (input E lines s)) s.proc.back.er ||
    Execute.nmiTaken (s.proc.ex (input E lines s)) s.proc.back.er

end

abbrev run (E : Environment ε) (s₀ : System ε) (lines : Nat → Bool × Bool) (n : Nat) : System ε :=
  Run.states (next E) s₀ lines n

section

variable {E : Environment ε} {lines : Bool × Bool} {s : System ε}

theorem next_untaken (h : taken E lines s = false) :
    next E (false, false) s = next E lines s := by
  have hun : Processor.Untaken (input E lines s) s.proc := by
    simp only [taken, Bool.or_eq_false_iff] at h
    exact ⟨h.1, h.2⟩
  have hinput : input E (false, false) s = Processor.unlined (input E lines s) := rfl
  simp only [next, nextPlace, completed, returned, hinput, Execute.returns,
    Processor.ex_unlined hun, Processor.trap_unlined hun, Processor.executeBusy_unlined hun,
    Processor.next_unlined hun, Processor.output_unlined hun, hun.completes]
  rfl

end

/-- As long as no interrupt or NMI is taken a run is the run without them: the instructions the
program has completed, the registers, the memory and everything else are the same. -/
theorem undisturbed (E : Environment ε) (s₀ : System ε) (lines : Nat → Bool × Bool) (n : Nat)
    (h : ∀ k < n, taken E (lines k) (run E s₀ lines k) = false) :
    run E s₀ lines n = run E s₀ (fun _ => (false, false)) n := by
  induction n with
  | zero => rfl
  | succ n ih =>
    have hn := ih fun k hk => h k (by omega)
    calc run E s₀ lines (n + 1) = next E (lines n) (run E s₀ lines n) := rfl
      _ = next E (false, false) (run E s₀ lines n) := (next_untaken (h n (by omega))).symm
      _ = next E (false, false) (run E s₀ (fun _ => (false, false)) n) := by rw [hn]

/-- A handler returns to what the open wire carried when the trap was taken, wherever the program
was. -/
theorem returns_to_open_wire (E : Environment ε) (s₀ : System ε) (lines : Nat → Bool × Bool)
    {t u : Nat} (htu : t < u)
    (ht : (run E s₀ lines t).proc.trap (input E (lines t) (run E s₀ lines t)) = true)
    (hno : ∀ k, t < k → k ≤ u →
      (run E s₀ lines k).proc.trap (input E (lines k) (run E s₀ lines k)) = false)
    (hr : returned E (lines u) (run E s₀ lines u) = true) :
    (run E s₀ lines (u + 1)).proc.back.er.jumpaddr = E.trapaddr (run E s₀ lines t).env := by
  have hkeep : ∀ k, t < k → k ≤ u →
      (run E s₀ lines k).trappc = E.trapaddr (run E s₀ lines t).env := by
    intro k htk
    induction k, Nat.succ_le_of_lt htk using Nat.le_induction with
    | base => exact fun _ => if_pos ht
    | succ k hk ih =>
      intro hku
      have hk' := hno k hk (by omega)
      calc (run E s₀ lines (k + 1)).trappc = (run E s₀ lines k).trappc :=
            if_neg (by rw [hk']; exact Bool.false_ne_true)
        _ = E.trapaddr (run E s₀ lines t).env := ih hk (by omega)
  rw [← hkeep u htu le_rfl]
  exact Execute.next_jumpaddr_returns _ _ hr

/-! ## A program in a memory without stalls -/

/-- The word that the memory offers. -/
structure Rom where
  addr : Word
  valid : Bool

def rom (program : Word → Word) : Environment Rom where
  drive := fun e _ =>
    { stall := false, valid := e.valid, read := program e.addr, env := .rest (fetched 0 0 false) }
  trapaddr := fun _ => 0
  step := fun e o =>
    match o.fr.state with
    | .running =>
      if o.abort then { addr := o.fr.fpc, valid := false }
      else if o.enable then { addr := o.fr.fpc, valid := true } else e
    | .jumping | .aligning => { addr := o.fr.fpc, valid := true }

def started : System Rom where
  proc := Processor.reset
  trappc := 0
  env := { addr := 0, valid := false }
  place := .program
  done := []

/-- The program is `addi r1, 1` everywhere; the handler is `jmpe` with `addi r0, 0` in its delay
slot. -/
def counting (addr : Word) : Word :=
  if addr = 0x100 then 0xB4000000 else if addr = 0x104 then 0xD0000000 else 0xD0110000

def nmiAt (k n : Nat) : Bool × Bool := (false, n == k)

theorem done_succ (E : Environment ε) (s₀ : System ε) (lines : Nat → Bool × Bool) (n : Nat) :
    (run E s₀ lines n).done <+: (run E s₀ lines (n + 1)).done := by
  show _ <+: if _ then (run E s₀ lines n).done ++ _ else (run E s₀ lines n).done
  split
  · exact List.prefix_append _ _
  · exact List.prefix_rfl

theorem done_mono (E : Environment ε) (s₀ : System ε) (lines : Nat → Bool × Bool) {m n : Nat}
    (h : m ≤ n) : (run E s₀ lines m).done <+: (run E s₀ lines n).done := by
  induction n, h using Nat.le_induction with
  | base => exact List.prefix_rfl
  | succ n _ ih => exact ih.trans (done_succ E s₀ lines n)

/-- The interrupt line is high in every clock and interrupts are masked. -/
theorem undisturbed_masked :
    run (rom counting) started (fun _ => (true, false)) 8 =
      run (rom counting) started (fun _ => (false, false)) 8 :=
  undisturbed (rom counting) started (fun _ => (true, false)) 8 (by decide)

/-- An NMI between two instructions: whatever the program completes without it, it does not go on as
it does with it. -/
theorem nmi_not_resumed :
    taken (rom counting) (nmiAt 4 4) (run (rom counting) started (nmiAt 4) 4) = true ∧
      ¬ ∃ n, (run (rom counting) started (nmiAt 4) 15).done <+:
        (run (rom counting) started (fun _ => (false, false)) n).done := by
  refine ⟨by decide, ?_⟩
  have hnot : ¬ (run (rom counting) started (nmiAt 4) 15).done <+:
      (run (rom counting) started (fun _ => (false, false)) 8).done := by
    decide
  rintro ⟨n, hn⟩
  apply hnot
  -- what is completed by clock 8 is the start of every longer run
  rcases Nat.le_total n 8 with hle | hge
  · exact hn.trans (done_mono _ _ _ hle)
  · exact List.prefix_of_prefix_length_le hn (done_mono _ _ _ hge) (by decide)

end System

end Xtc
