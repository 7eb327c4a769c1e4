import Xtc.Core.Operands

/-!
# ZeroRegister — register zero reads as zero

The read ports of the bank give zero for the registers whose four low bits are zero, in either bank.
An operand that is not read there is forwarded from the instruction ahead, and forwarding does not
look at the register: the property is lost exactly where a result for register zero is forwarded and
is not zero.
-/

namespace Xtc

open Backend

namespace Side

/-- The word the bank's port holds for an operand. -/
def read (s : Backend) : Side → Word
  | left => s.rr1
  | right => s.rr2

theorem value_eq (s : Backend) (p : Side) :
    p.value s = if p.forwarded s then s.er.alur else p.read s := by
  cases p <;> rfl

end Side

namespace Backend

/-- The instruction in decode takes operand `p` from a zero register as it moves in front of
execute. -/
def readsZero (i : BackendInput) (s : Backend) (p : Side) : Bool :=
  enters i s && p.rd s.dr && Regbank.isZero (p.sra s.dr)

/-- The instruction in front of execute has operand `p` from a zero register. -/
def hasZero (s : Backend) (p : Side) : Bool :=
  s.fdr.drq.valid && p.rd s.fdr.drq && Regbank.isZero (p.sra s.fdr.drq)

/-- An ALU result that is forwarded for a zero register is zero, when the instruction moves in front
of execute and as long as it is held there. -/
structure ZeroKept (i : BackendInput) (s : Backend) : Prop where
  enters : ∀ p, readsZero i s p = true →
    Fetchdata.forwards (fdControl i s) s.fdr (p.sra s.dr) = true → (next i s).er.alur = 0
  held : ∀ p, executeBusy i s = true → hasZero s p = true → p.forwarded s = true →
    (next i s).er.alur = 0

def ZeroRead (s : Backend) : Prop := ∀ p, hasZero s p = true → p.value s = 0

variable {i : BackendInput} {s : Backend}

/-! ## One clock -/

theorem forwarded_held (hb : executeBusy i s = true) (p : Side) :
    p.forwarded (next i s) = p.forwarded s := by
  cases p <;> exact if_pos hb

theorem forwarded_entered (hb : executeBusy i s = false) (p : Side) :
    p.forwarded (next i s) = Fetchdata.forwards (fdControl i s) s.fdr (p.sra s.dr) := by
  have hfreeze : ¬ (fdControl i s).freeze = true := by
    show ¬ executeBusy i s = true
    simp [hb]
  cases p <;> exact if_neg hfreeze

theorem read_next (p : Side) : p.read (next i s) =
    Regbank.read (rbw i s) s.ram (rbEn i s (p.rd s.dr)) (p.sra s.dr) (p.read s) := by
  cases p <;> rfl

theorem hasZero_held (hb : executeBusy i s = true) (p : Side) :
    hasZero (next i s) p = hasZero s p := by
  have hdrq : (next i s).fdr.drq = s.fdr.drq := (fdr_drq_next i s).trans (if_pos hb)
  rw [hasZero, hdrq, hasZero]

/-- What is in front of execute after a clock in which it is free is what moved there. -/
theorem hasZero_entered (hb : executeBusy i s = false) (p : Side) :
    hasZero (next i s) p = readsZero i s p := by
  have hdrq := (fdr_drq_next i s).trans (if_neg (by simp [hb]))
  have hrd : p.rd (next i s).fdr.drq = p.rd s.dr := by
    rw [hdrq]
    cases p <;> rfl
  have hsra : p.sra (next i s).fdr.drq = p.sra s.dr := by
    rw [hdrq]
    cases p <;> rfl
  have hvalid : (next i s).fdr.drq.valid = enters i s := by
    rw [hdrq]
    simp [enters, hb]
  rw [hasZero, hrd, hsra, hvalid, readsZero]

theorem ZeroRead.next_held (h : ZeroRead s) (hok : ZeroKept i s) (hb : executeBusy i s = true) :
    ZeroRead (next i s) := by
  intro p hzero
  rw [hasZero_held hb] at hzero
  have hvalue := h p hzero
  have hen : rbEn i s (p.rd s.dr) = false := by simp [rbEn, hb]
  rw [Side.value_eq] at hvalue
  rw [Side.value_eq, forwarded_held hb, read_next, hen]
  cases hf : p.forwarded s with
  | true => simpa using hok.held p hb hzero hf
  | false => simpa [Regbank.read, hf] using hvalue

theorem ZeroRead.next_entered (hok : ZeroKept i s) (hb : executeBusy i s = false) :
    ZeroRead (next i s) := by
  intro p hzero
  rw [hasZero_entered hb] at hzero
  rw [Side.value_eq, forwarded_entered hb]
  cases hf : Fetchdata.forwards (fdControl i s) s.fdr (p.sra s.dr) with
  | true => simpa using hok.enters p hzero hf
  | false =>
    -- the port is read in this clock, and gives zero for the register
    simp only [readsZero, enters, Bool.and_eq_true, Bool.not_eq_true'] at hzero
    rw [if_neg Bool.false_ne_true, read_next]
    simp [Regbank.read, rbEn, hzero]

theorem ZeroRead.next (h : ZeroRead s) (hok : ZeroKept i s) : ZeroRead (next i s) := by
  cases hb : executeBusy i s with
  | true => exact h.next_held hok hb
  | false => exact .next_entered hok hb

theorem Reset.zeroRead (h : Reset s) : ZeroRead s := by
  intro p hzero
  simp [hasZero, h.fdr.valid] at hzero

/-! ## Every run -/

abbrev states (s₀ : Backend) (inputs : Nat → BackendInput) (n : Nat) : Backend :=
  Run.states Backend.next s₀ inputs n

/-- Where every result that is forwarded for register zero is zero, so is every operand that execute
takes for a zero register. -/
theorem zero_reads_zero {s₀ : Backend} {inputs : Nat → BackendInput} (h₀ : Reset s₀) (n : Nat)
    (hok : ∀ k < n, ZeroKept (inputs k) (states s₀ inputs k))
    (hv : (states s₀ inputs n).fdr.drq.valid = true) :
    ((states s₀ inputs n).fdr.drq.rd1 = true →
      Regbank.isZero (states s₀ inputs n).fdr.drq.sra1 = true →
        Execute.lhs (ex (inputs n) (states s₀ inputs n)) (states s₀ inputs n).er = 0) ∧
    ((states s₀ inputs n).fdr.drq.rd2 = true →
      Regbank.isZero (states s₀ inputs n).fdr.drq.sra2 = true →
        Execute.rhs (ex (inputs n) (states s₀ inputs n)) (states s₀ inputs n).er = 0) := by
  have hread : ZeroRead (states s₀ inputs n) :=
    Run.invariant ZeroRead ZeroKept h₀.zeroRead (fun _ _ hok h => h.next hok) n hok
  have hvalue : ∀ p : Side, p.rd (states s₀ inputs n).fdr.drq = true →
      Regbank.isZero (p.sra (states s₀ inputs n).fdr.drq) = true →
        p.value (states s₀ inputs n) = 0 := by
    intro p hrd hz
    exact hread p (by simp [hasZero, hv, hrd, hz])
  exact ⟨hvalue .left, hvalue .right⟩

def apartAddi (n : Nat) : BackendInput :=
  match n with
  | 0 => .rest (fetched 0x5050 0 true)
  | 1 => .rest (fetched 0x5071 0 true)
  | 2 => .rest (fetched 0x5090 0 true)
  | _ => .rest (fetched 0 0 false)

theorem apartAddi_kept : ∀ k < 4, ZeroKept (apartAddi k) (states reset apartAddi k)
  | 0, _ | 1, _ | 2, _ | 3, _ => ⟨fun p => by cases p <;> decide, fun p => by cases p <;> decide⟩

/-- The bank holds the five, and the last instruction reads zero. -/
theorem zero_reads_zero_apart :
    (states reset apartAddi 4).ram 16 = 5 ∧ (states reset apartAddi 4).fdr.drq.sra1 = 16 ∧
      Execute.lhs (ex (apartAddi 4) (states reset apartAddi 4)) (states reset apartAddi 4).er = 0 :=
  ⟨by decide, by decide, (zero_reads_zero reset_reset 4 apartAddi_kept (by decide)).1 (by decide)
    (by decide)⟩

def zeroAddi (n : Nat) : BackendInput :=
  match n with
  | 0 => .rest (fetched 0x5050 0 true)
  | 1 => .rest (fetched 0x5070 0 true)
  | _ => .rest (fetched 0 0 false)

/-- The second `addi` takes the five that the first one computed. -/
theorem zero_forwarded :
    Execute.processed (ex (zeroAddi 3) (states reset zeroAddi 3)) (states reset zeroAddi 3).er =
        true ∧
      ¬ ((states reset zeroAddi 3).fdr.drq.rd1 = true →
        Regbank.isZero (states reset zeroAddi 3).fdr.drq.sra1 = true →
          Execute.lhs (ex (zeroAddi 3) (states reset zeroAddi 3)) (states reset zeroAddi 3).er =
            0) := by
  constructor
  · decide
  · intro h
    have := h (by decide) (by decide)
    revert this
    decide

end Backend

end Xtc
