import Xtc.Softsim.Guest

/-!
# Immediate — chains of `imm` in the simulator `softsim`

The first `imm` extends the sign of its field, every further one shifts its field in, and the
instruction behind them shifts in its own eight bits: what it uses is the whole bit string, read as
a signed number.  Every instruction but `imm` ends the chain.
-/

namespace Xtc

namespace Softsim

open EStateM (Result)

/-! ## Instructions after the fetch -/

/-- A round of `execute` behind the fetch. -/
def executeInst (undefined : Word) (inst : BitVec 16) : Sim Unit := do
  let cpu ← getCpu
  match decodeSingleOpcode cpu inst with
  | some o => executeSingleOpcodeFjp o undefined
  | none => throw (.invalidOpcode inst cpu.pc)

theorem step_eq (undefined : Word) : step undefined = fetch >>= executeInst undefined := rfl

def immInst (f : BitVec 12) : BitVec 16 := 0x8#4 ++ f

def usesImm8 (inst : BitVec 16) : Bool :=
  match (inst.extractLsb' 12 4).toNat with
  | 0x6 | 0x7 | 0x9 | 0xD | 0xE => true
  | 0xA => (decodeBranch (inst.extractLsb' 0 4)).isSome
  | _ => false

def imm8Field (inst : BitVec 16) : BitVec 8 := inst.extractLsb' 4 8

def bitString : (fs : List (BitVec 12)) → BitVec 8 → BitVec (12 * fs.length + 8)
  | [], g => g
  | f :: fs, g => (f ++ bitString fs g).cast (by rw [List.length_cons]; omega)

/-! ## What is decoded -/

section Decode

variable (cpu : Cpu)

theorem immInst_decodeOp (f : BitVec 12) :
    decodeOp cpu (immInst f) = some (.imm, getImm12 cpu (immInst f), false) := by
  have htop : (immInst f).extractLsb' 12 4 = 0x8#4 := Bits.extractLsb'_high 0x8#4 f
  rw [decodeOp, htop]
  rfl

/-- The operations of these instructions. -/
def Opv.usesImm8 : Opv → Bool
  | .addi | .cmpi | .limr | .calli | .bri | .brie | .brine | .brilt | .brile | .brigt | .brige
  | .briugt | .briult | .briuge | .briule => true
  | _ => false

theorem decodeBranch_usesImm8 {k : BitVec 4} {opv : Opv} (h : decodeBranch k = some opv) :
    opv.usesImm8 = true := by
  unfold decodeBranch at h
  split at h <;> cases h <;> rfl

theorem usesImm8_decodeOp {inst : BitVec 16} (h : usesImm8 inst = true) :
    ∃ opv, decodeOp cpu inst = some (opv, getImm8 cpu inst, false) ∧ opv.usesImm8 = true := by
  unfold usesImm8 at h
  split at h
  all_goals rename_i htop
  case h_6 =>
    obtain ⟨opv, hopv⟩ := Option.isSome_iff_exists.mp h
    refine ⟨opv, ?_, decodeBranch_usesImm8 hopv⟩
    rw [decodeOp, htop, hopv]
    rfl
  case h_7 => cases h
  all_goals
    rw [decodeOp, htop]
    exact ⟨_, rfl, rfl⟩

end Decode

/-! ## What is executed -/

section Execute

variable (undefined : Word) {m : Machine}

theorem executeInst_eq {inst : BitVec 16} {opv : Opv} {immed : Word} {b : Bool}
    (h : decodeOp m.cpu inst = some (opv, immed, b)) :
    executeInst undefined inst m =
      executeSingleOpcodeFjp ⟨opv, inst.extractLsb' 0 4, inst.extractLsb' 4 4, immed, inst, b⟩
        undefined m := by
  have hdecode : decodeSingleOpcode m.cpu inst =
      some ⟨opv, inst.extractLsb' 0 4, inst.extractLsb' 4 4, immed, inst, b⟩ := by
    rw [decodeSingleOpcode, h]
    rfl
  show (match decodeSingleOpcode m.cpu inst with
    | some o => executeSingleOpcodeFjp o undefined
    | none => throw (.invalidOpcode inst m.cpu.pc) : Sim Unit) m = _
  rw [hdecode]

theorem executeInst_imm (f : BitVec 12) :
    ∃ m', executeInst undefined (immInst f) m = .ok () m' ∧ m'.cpu.imflag = true ∧
      m'.cpu.imm = getImm12 m.cpu (immInst f) := by
  rw [executeInst_eq undefined (immInst_decodeOp m.cpu f)]
  exact ⟨_, rfl, rfl, rfl⟩

theorem handler_usesImm8 {o : Opcode} (h : o.opv.usesImm8 = true) :
    ∃ f : Cpu → Cpu, handler o undefined = modifyCpu f ∧
      ∀ cpu, (f cpu).resetImmed = cpu.resetImmed := by
  have hbranch : ∀ taken cpu, (branch o taken cpu).resetImmed = cpu.resetImmed := by
    intro taken cpu
    cases taken <;> rfl
  unfold handler
  split
  all_goals rename_i hopv
  all_goals first
    | exact ⟨_, rfl, fun _ => rfl⟩
    | exact ⟨_, rfl, fun _ => hbranch _ _⟩
    | (rw [hopv] at h; cases h)

theorem executeInst_usesImm8 {inst : BitVec 16} (h : usesImm8 inst = true) :
    ∃ m', executeInst undefined inst m = .ok () m' ∧ m'.cpu.imm = 0 ∧ m'.cpu.imflag = false := by
  obtain ⟨opv, hdecode, hopv⟩ := usesImm8_decodeOp m.cpu h
  rw [executeInst_eq undefined hdecode]
  obtain ⟨f, hhandler, hreset⟩ := handler_usesImm8 undefined
    (o := ⟨opv, inst.extractLsb' 0 4, inst.extractLsb' 4 4, getImm8 m.cpu inst, inst, false⟩) hopv
  rw [executeSingleOpcodeFjp, hhandler]
  refine ⟨_, rfl, ?_, ?_⟩
  · show (if (f (beginOpcode m.cpu)).resetImmed then (0 : Word) else _) = 0
    rw [hreset]
    rfl
  · show (!(f (beginOpcode m.cpu)).resetImmed) = false
    rw [hreset]
    rfl

/-! ## Chains -/

theorem forM_cons_ok {f : BitVec 12} {fs : List (BitVec 12)} {m₁ : Machine}
    (h : executeInst undefined (immInst f) m = .ok () m₁) :
    ((f :: fs).map immInst).forM (executeInst undefined) m =
      (fs.map immInst).forM (executeInst undefined) m₁ := by
  show EStateM.bind (executeInst undefined (immInst f)) _ m = _
  rw [EStateM.bind, h]

/-- A chain that has begun: the guest holds the bits so far. -/
theorem chain_continues {n : Nat} (hn : 0 < n) (fs : List (BitVec 12)) (x : BitVec n)
    (m : Machine) (hflag : m.cpu.imflag = true) (himm : m.cpu.imm = x.signExtend 32) :
    ∃ m', (fs.map immInst).forM (executeInst undefined) m = .ok () m' ∧
      ∀ inst, getImm8 m'.cpu inst = (x ++ bitString fs (imm8Field inst)).signExtend 32 := by
  induction fs generalizing n m with
  | nil =>
    refine ⟨m, rfl, fun inst => ?_⟩
    rw [getImm8, if_pos hflag, himm, ← Bits.signExtend_append 32 hn]
    rfl
  | cons f fs ih =>
    obtain ⟨m₁, hstep, hflag₁, himm₁⟩ := executeInst_imm undefined (m := m) f
    have hfield : (immInst f).extractLsb' 0 12 = f := Bits.extractLsb'_low 0x8#4 f
    rw [getImm12, if_pos hflag, himm, hfield, ← Bits.signExtend_append 32 hn] at himm₁
    obtain ⟨m', hrun, hbits⟩ := ih (n := n + 12) (by omega) (x ++ f) m₁ hflag₁ himm₁
    refine ⟨m', ?_, fun inst => ?_⟩
    · rw [forM_cons_ok undefined hstep, hrun]
    · rw [hbits, bitString, Bits.signExtend_append_cast]

theorem chain_bits (fs : List (BitVec 12)) (m : Machine) (hflag : m.cpu.imflag = false) :
    ∃ m', (fs.map immInst).forM (executeInst undefined) m = .ok () m' ∧
      ∀ inst, getImm8 m'.cpu inst = (bitString fs (imm8Field inst)).signExtend 32 := by
  cases fs with
  | nil =>
    refine ⟨m, rfl, fun inst => ?_⟩
    rw [getImm8, hflag]
    rfl
  | cons f fs =>
    obtain ⟨m₁, hstep, hflag₁, himm₁⟩ := executeInst_imm undefined (m := m) f
    have hfield : (immInst f).extractLsb' 0 12 = f := Bits.extractLsb'_low 0x8#4 f
    have himm : m₁.cpu.imm = f.signExtend 32 := by
      rw [himm₁, getImm12, hflag, hfield]
      rfl
    obtain ⟨m', hrun, hbits⟩ := chain_continues undefined (by omega) fs f m₁ hflag₁ himm
    refine ⟨m', ?_, fun inst => ?_⟩
    · rw [forM_cons_ok undefined hstep, hrun]
    · rw [hbits, bitString, Bits.signExtend_cast]

end Execute

/-! ## Rounds -/

/-- A round leaves `imm` at 0 unless it was an `imm`. -/
theorem round_imm {undefined : Word} {cpu : Cpu} {m : Machine}
    (h : round undefined cpu = .ok () m) (hflag : m.cpu.imflag = false) : m.cpu.imm = 0 := by
  rw [round_eq] at h
  split at h
  · rename_i o _
    rw [bind_modify_eq] at h
    split at h
    · cases h
      change (!_) = false at hflag
      rw [Bool.not_eq_false'] at hflag
      exact if_pos hflag
    · cases h
  · cases h

theorem execute_imm {heap cpu : Cpu} {image : List (BitVec 8)} {undefined : Nat → Word} {n : Nat}
    (h : execute undefined (heap.initial.load image) n = some cpu) (hflag : cpu.imflag = false) :
    cpu.imm = 0 := by
  cases n with
  | zero =>
    cases h
    rfl
  | succ n =>
    rw [execute] at h
    split at h
    · rename_i m hround
      cases h
      obtain ⟨c, -, hc⟩ := Option.map_eq_some_iff.mp hround
      exact round_imm hc hflag
    · cases h

/-- After any number of `imm` the next instruction uses the bit string of all fields, read as a
signed number; it ends the chain, and a guest outside of a chain has 0 in `imm`. -/
theorem imm_fields_concatenate :
    (∀ (undefined : Word) (fs : List (BitVec 12)) (m : Machine), m.cpu.imflag = false →
      ∃ m', (fs.map immInst).forM (executeInst undefined) m = .ok () m' ∧
        ∀ inst, usesImm8 inst = true →
          (∃ o, decodeSingleOpcode m'.cpu inst = some o ∧
            o.immed = BitVec.ofInt 32 (bitString fs (imm8Field inst)).toInt) ∧
          ∃ m'', executeInst undefined inst m' = .ok () m'' ∧
            m''.cpu.imm = 0 ∧ m''.cpu.imflag = false) ∧
    ∀ (heap cpu : Cpu) (image : List (BitVec 8)) (undefined : Nat → Word) (n : Nat),
      execute undefined (heap.initial.load image) n = some cpu → cpu.imflag = false →
        cpu.imm = 0 := by
  refine ⟨fun undefined fs m hflag => ?_, fun _ _ _ _ _ h hflag => execute_imm h hflag⟩
  obtain ⟨m', hrun, hbits⟩ := chain_bits undefined fs m hflag
  refine ⟨m', hrun, fun inst hinst => ⟨?_, executeInst_usesImm8 undefined hinst⟩⟩
  obtain ⟨opv, hdecode, -⟩ := usesImm8_decodeOp m'.cpu hinst
  rw [decodeSingleOpcode, hdecode]
  exact ⟨_, rfl, hbits inst⟩

/-- Two `imm` before `limr`, which uses the 32 bits of the three fields. -/
theorem imm_imm_limr : ∃ m o,
    ([0xFFF, 0x123].map immInst).forM (executeInst 0) ⟨loadsBehind, [], [], []⟩ = .ok () m ∧
      decodeSingleOpcode m.cpu 0xE451 = some o ∧ o.immed = 0xFFF12345 := by
  obtain ⟨m, hrun, huses⟩ :=
    imm_fields_concatenate.1 0 [0xFFF, 0x123] ⟨loadsBehind, [], [], []⟩ rfl
  obtain ⟨⟨o, hdecode, himm⟩, -⟩ := huses 0xE451 (by decide)
  exact ⟨m, o, hrun, hdecode, himm.trans (by decide)⟩

end Softsim

end Xtc
