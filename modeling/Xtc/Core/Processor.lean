import Xtc.Core.Fetch
import Xtc.Core.Scoreboard

/-!
# Processor — the fetch unit in front of the pipeline

`xtc.vhd` without its caches, memory and coprocessors: what they drive is the input of a clock.
-/

namespace Xtc

structure ProcessorInput where
  -- the instruction cache
  stall : Bool
  valid : Bool
  read : Word
  -- everything else; the fetched instruction in it is replaced by the fetch unit's
  env : BackendInput

/-- The cache offers a word, and nothing else happens. -/
def ProcessorInput.offer (read : Word) : ProcessorInput where
  stall := true
  valid := true
  read := read
  env := .rest (fetched 0 0 false)

/-- The cache takes an address or not, and nothing else happens. -/
def ProcessorInput.wait (stall : Bool) : ProcessorInput where
  stall := stall
  valid := false
  read := 0
  env := .rest (fetched 0 0 false)

def ProcessorInput.withNmi (i : ProcessorInput) : ProcessorInput :=
  { i with env := { i.env with nmi := true } }

structure Processor where
  fr : FetchRegs
  back : Backend

namespace Processor

section

variable (i : ProcessorInput) (p : Processor)

/-- None of these signals looks at the fetched instruction. -/
def fetchIn : FetchInput where
  stall := i.stall
  valid := i.valid
  read := i.read
  -- `busy` of decode is its `freeze`
  freeze := Backend.freezeDecoder i.env p.back
  jump := Backend.jump i.env p.back
  jumppriv := p.back.er.jumppriv
  jumpaddr := p.back.er.jumpaddr

def backIn : BackendInput := { i.env with fui := Fetch.output (fetchIn i p) p.fr }

def ex : ExecuteInput := Backend.ex i.env p.back

/-- An instruction is processed: `fdui.valid='1'` and `busy_int='0'`. -/
def processed : Bool := Execute.processed (ex i p) p.back.er

def trap : Bool := Backend.trap i.env p.back

def jump : Bool := Backend.jump i.env p.back

def executeBusy : Bool := Backend.executeBusy i.env p.back

def next : Processor where
  fr := Fetch.next (fetchIn i p) p.fr
  back := Backend.next (backIn i p) p.back

end

structure Reset (p : Processor) : Prop where
  fr : p.fr = Fetch.reset
  back : p.back.Reset

def reset : Processor := ⟨Fetch.reset, Backend.reset⟩

theorem reset_reset : reset.Reset := ⟨rfl, Backend.reset_reset⟩

abbrev run (p₀ : Processor) (inputs : Nat → ProcessorInput) (n : Nat) : Processor :=
  Run.states next p₀ inputs n

section Registers

variable (i : ProcessorInput) (p : Processor)

theorem fdr_drq_next : (next i p).back.fdr.drq =
    if executeBusy i p then p.back.fdr.drq
    else { p.back.dr with
      valid := p.back.dr.valid && !(jump i p || trap i p) && Backend.allvalid i.env p.back } :=
  Backend.fdr_drq_next (backIn i p) p.back

theorem fdr_valid_next : (next i p).back.fdr.drq.valid =
    if executeBusy i p then p.back.fdr.drq.valid
    else p.back.dr.valid && !(jump i p || trap i p) && Backend.allvalid i.env p.back := by
  rw [fdr_drq_next]
  split <;> rfl

theorem dr_valid_next : (next i p).back.dr.valid =
    if jump i p then false
    else if Backend.freezeDecoder i.env p.back then p.back.dr.valid
    else (Fetch.output (fetchIn i p) p.fr).valid :=
  decodeNext_valid

theorem dr_pc_next : (next i p).back.dr.pc =
    if (Fetch.output (fetchIn i p) p.fr).valid && !Backend.freezeDecoder i.env p.back then p.fr.pc
    else p.back.dr.pc :=
  decodeNext_pc

theorem processed_valid (h : processed i p = true) : p.back.fdr.drq.valid = true :=
  Execute.processed_valid _ _ h

theorem executeBusy_of_waiting (hv : p.back.fdr.drq.valid = true) (hp : processed i p = false) :
    executeBusy i p = true := by
  have hv' : (ex i p).fdui.valid = true := hv
  simp only [processed, Execute.processed, hv', Bool.true_and, Bool.not_eq_false'] at hp
  show Execute.busy (ex i p) p.back.er = true
  rw [Execute.busy, hp, Bool.true_or]

theorem jump_of_empty (hv : p.back.fdr.drq.valid = false) : jump i p = p.back.er.trapq := by
  have hv' : (ex i p).fdui.valid = false := hv
  show Execute.jump (ex i p) p.back.er = _
  rw [Execute.jump, hv', Bool.and_false, Bool.false_or]

end Registers

end Processor

end Xtc
