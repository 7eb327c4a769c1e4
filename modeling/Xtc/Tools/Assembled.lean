import Xtc.Tools.Assemble

/-!
# Assembled — the decoder on what the assembler emits

The words of a line in the form the decoder's closed forms speak about, what the four shapes of
an emitted sequence decode to, and from both when a line is executed as written.
-/

namespace Xtc.Tools

open Xtc.Linker

/-! ## Emitted words -/

theorem Mnemonic.bitSequence_eq {m : Mnemonic} (h : m ≠ .imm) :
    m.entry.bitSequence = (m.key ++ 0#8).setWidth 32 := by
  cases m
  case imm => exact absurd rfl h
  all_goals rfl

theorem setWidth_ofNat (n k : Nat) (h : k ≤ 32) :
    (BitVec.ofNat 32 n).setWidth k = BitVec.ofNat k n :=
  BitVec.setWidth_ofNat_of_le h n

theorem instBytes_instRegs (key : BitVec 7) (a b : Nat) :
    instBytes (instRegs ((key ++ 0#8).setWidth 32) a b) =
      insnWord 0 key (BitVec.ofNat 4 b) (BitVec.ofNat 4 a) := by
  rw [instRegs, ← setWidth_ofNat a 4 (by omega), ← setWidth_ofNat b 4 (by omega)]
  generalize BitVec.ofNat 32 a = a
  generalize BitVec.ofNat 32 b = b
  apply BitVec.eq_of_getLsbD_eq
  intro i hi
  simp only [instBytes, insnWord, BitVec.getLsbD_extractLsb, BitVec.getLsbD_append,
    BitVec.getLsbD_or, BitVec.getLsbD_and, BitVec.getLsbD_shiftLeft, BitVec.getLsbD_setWidth]
  interval_cases i <;> simp

theorem instBytes_extended (inst : Word) :
    instBytes (inst ||| 0x8000) = instBytes inst ||| 0x8000#16 := by
  apply BitVec.eq_of_getLsbD_eq
  intro i hi
  simp only [instBytes, BitVec.getLsbD_extractLsb, BitVec.getLsbD_or]
  interval_cases i <;> simp

theorem insnWord_extended (key : BitVec 7) (rb ra : BitVec 4) :
    insnWord 0 key rb ra ||| 0x8000#16 = insnWord 1 key rb ra := by
  apply BitVec.eq_of_getLsbD_eq
  intro i hi
  simp only [insnWord, BitVec.getLsbD_append, BitVec.getLsbD_or]
  interval_cases i <;> simp

theorem xtcEmitE24_eq (value : Word) (cc : BitVec 4) :
    xtcEmitE24 value cc = [e24High value.toInt, e24Low cc value.toInt] := by
  have h15 : value.toInt >>> (15 : Nat) = (value.sshiftRight 15).toInt := by simp
  have h23 : value.toInt >>> (23 : Nat) = (value.sshiftRight 23).toInt := by simp
  have hhigh : e24High value.toInt = 1#1 ++ value.signExtend 15 := rfl
  have hlow : e24Low cc value.toInt = 0b011#3 ++ (value.sshiftRight 23).signExtend 1 ++ cc ++
      (value.sshiftRight 15).signExtend 8 := by
    rw [e24Low, h15, h23]
    rfl
  rw [hhigh, hlow]
  simp only [xtcEmitE24, List.cons.injEq, and_true]
  constructor
  · apply BitVec.eq_of_getLsbD_eq
    intro i hi
    simp only [BitVec.getLsbD_extractLsb, BitVec.getLsbD_append, BitVec.getLsbD_or,
      BitVec.getLsbD_and, BitVec.getLsbD_shiftLeft, BitVec.getLsbD_setWidth,
      BitVec.getLsbD_signExtend, BitVec.getLsbD_sshiftRight]
    interval_cases i <;> simp
  · apply BitVec.eq_of_getLsbD_eq
    intro i hi
    simp only [BitVec.getLsbD_extractLsb, BitVec.getLsbD_append, BitVec.getLsbD_or,
      BitVec.getLsbD_and, BitVec.getLsbD_shiftLeft, BitVec.getLsbD_setWidth,
      BitVec.getLsbD_signExtend, BitVec.getLsbD_sshiftRight]
    interval_cases i <;> simp

theorem xtcBuildExtension_immed (cond : BitVec 4) (imm : BitVec 8) :
    xtcBuildExtension cond .immed ++ imm = e8Low cond imm := by
  have h : xtcBuildExtension cond .immed = 0b0100#4 ++ cond := by
    revert cond
    decide
  rw [h]
  rfl

theorem makeExtended_words (inst : Word) (cond : BitVec 4) (reg : Word) :
    instBytes (makeExtended inst cond .dreg reg >>> 16) = instBytes inst ||| 0x8000#16 ∧
    instBytes (makeExtended inst cond .dreg reg) = (cond ||| 2#4) ++ 0#4 ++ reg.setWidth 8 := by
  constructor
  · apply BitVec.eq_of_getLsbD_eq
    intro i hi
    simp only [makeExtended, instBytes, BitVec.getLsbD_extractLsb, BitVec.getLsbD_or,
      BitVec.getLsbD_and, BitVec.getLsbD_shiftLeft, BitVec.getLsbD_setWidth,
      BitVec.getLsbD_ushiftRight]
    interval_cases i <;> simp
  · apply BitVec.eq_of_getLsbD_eq
    intro i hi
    simp only [makeExtended, instBytes, BitVec.getLsbD_extractLsb, BitVec.getLsbD_append,
      BitVec.getLsbD_or, BitVec.getLsbD_and, BitVec.getLsbD_shiftLeft, BitVec.getLsbD_setWidth]
    interval_cases i <;> simp

/-- A special register number keeps three bits. -/
theorem instBytes_spr (key : BitVec 7) (a s : Nat) :
    instBytes ((key ++ 0#8).setWidth 32 ||| (BitVec.ofNat 32 a &&& 0x000F#32) |||
      (BitVec.ofNat 32 s <<< 4 &&& 0x0070#32)) =
      insnWord 0 key ((BitVec.ofNat 3 s).setWidth 4) (BitVec.ofNat 4 a) := by
  rw [← setWidth_ofNat a 4 (by omega), ← setWidth_ofNat s 3 (by omega)]
  generalize BitVec.ofNat 32 a = a
  generalize BitVec.ofNat 32 s = s
  apply BitVec.eq_of_getLsbD_eq
  intro i hi
  simp only [instBytes, insnWord, BitVec.getLsbD_extractLsb, BitVec.getLsbD_append,
    BitVec.getLsbD_or, BitVec.getLsbD_and, BitVec.getLsbD_shiftLeft, BitVec.getLsbD_setWidth]
  interval_cases i <;> simp

/-- The id of a coprocessor goes one bit too high, next to the direction. -/
theorem instBytes_cop (key : BitVec 7) (id : BitVec 2) (creg : BitVec 4) (a : BitVec 5) :
    instBytes ((key ++ 0#8).setWidth 32 ||| id.setWidth 32 <<< 9 ||| creg.setWidth 32 <<< 4 |||
      a.setWidth 32) =
      insnWord 0 (key ||| id.setWidth 7 <<< 1) (creg ||| (a >>> 4).setWidth 4) (a.setWidth 4) := by
  apply BitVec.eq_of_getLsbD_eq
  intro i hi
  simp only [instBytes, insnWord, BitVec.getLsbD_extractLsb, BitVec.getLsbD_append,
    BitVec.getLsbD_or, BitVec.getLsbD_shiftLeft, BitVec.getLsbD_setWidth,
    BitVec.getLsbD_ushiftRight]
  interval_cases i <;> simp

/-! ## Decoding what is emitted -/

theorem Mnemonic.executes_condition (m : Mnemonic) (p : Bool) (i : BitVec 2) (rb ra : BitVec 4) :
    (m.executes p i rb ra).condition = .unconditional := by
  cases m <;> rfl

theorem Executed.withCondition_self {x : Executed} {c : Condition} (h : x.condition = c) :
    x.withCondition c = x := by
  rw [← h]
  rfl

def Mnemonic.takesImmediate : Mnemonic → Bool
  | .add | .addc | .sub | .subb | .and | .or | .xor | .cmp | .shl | .srl | .sra | .mul | .not
  | .cadd | .csub => true
  | _ => false

theorem Executed.withCondition_inj {x : Executed} {c d : Condition} :
    x.withCondition c = x.withCondition d ↔ c = d :=
  ⟨fun h => congrArg Executed.condition h, fun h => h ▸ rfl⟩

theorem Mnemonic.executes_op_ne {m : Mnemonic} (h : m.entry.instType ≠ .r1R2) (p : Bool)
    (i : BitVec 2) (rb ra : BitVec 4) : (m.executes p i rb ra).op ≠ .alu := by
  cases m <;> first | exact absurd rfl h | exact nofun

/-- An ALU instruction becomes another one under an immediate, unless it takes one already. -/
theorem Mnemonic.withImmediate_eq_iff (m : Mnemonic) (p : Bool) (i : BitVec 2) (rb ra : BitVec 4) :
    (m.executes p i rb ra).withImmediate (regaddress p rb) = m.executes p i rb ra ↔
      m.takesImmediate = false := by
  cases m
  case add | addc | sub | subb | and | or | xor | cmp | shl | srl | sra | mul | not | cadd | csub =>
    refine iff_of_false (fun h => ?_) nofun
    exact absurd (congrArg Executed.immediate h) nofun
  all_goals exact iff_of_true rfl rfl

theorem Mnemonic.executes_cop {m : Mnemonic} (h : m.entry.instType = .cop) (p : Bool)
    (i : BitVec 2) (rb ra : BitVec 4) :
    (m.executes p i rb ra).cop = some (decide (m = .copw), i, rb) := by
  cases m <;> first | rfl | cases h

theorem Executed.withDest_of_isNone {x : Executed} (h : x.dest.isNone = true) (d : RegAddress) :
    x.withDest d = x := by
  have hd : x.dest = none := by simpa using h
  have hmap : x.dest.map (fun _ => d) = x.dest := by rw [hd]; rfl
  unfold Executed.withDest
  rw [hmap]

theorem regaddress_inj (p : Bool) {r s : BitVec 4} (h : regaddress p r = regaddress p s) :
    r = s := by
  have h' := congrArg (fun x : RegAddress => x.extractLsb 3 0) h
  simpa [regaddress_bits] using h'

theorem Mnemonic.covers_key {m : Mnemonic} (h : m ≠ .imm) : m.Covers m.key := by
  cases m
  case imm => exact absurd rfl h
  all_goals decide

/-- The entries of the table have zero in the place of a coprocessor id. -/
theorem Mnemonic.executes_key {m : Mnemonic} (h : m ≠ .imm) (p : Bool) (rb ra : BitVec 4) :
    m.executes p (m.key.extractLsb 1 0) rb ra = m.executes p 0 rb ra := by
  cases m
  case imm => exact absurd rfl h
  all_goals rfl

section Sequences

variable {m : Mnemonic} (rb ra : BitVec 4) (priv : Bool) (next : Opcode) (pc : Word)
  {dr : DecodeRegs}

theorem executed_short {key : BitVec 7} (h : m.Covers key) (hdr : dr.imflag = false) :
    executed (decodeSeq priv next pc dr [insnWord 0 key rb ra]) =
      m.executes priv (key.extractLsb 1 0) rb ra := by
  show executed (decodeInsn priv pc (insnWord 0 key rb ra) next dr) = _
  rw [h.executed 0 rb ra next priv pc dr (by simp)]
  simp only [hdr]
  exact Executed.withCondition_self (m.executes_condition ..)

theorem executed_plain (hm : m ≠ .imm) (hdr : dr.imflag = false) :
    executed (decodeSeq priv next pc dr [insnWord 0 m.key rb ra]) = m.executes priv 0 rb ra := by
  rw [executed_short rb ra priv next pc (Mnemonic.covers_key hm) hdr, Mnemonic.executes_key hm]

theorem decodeSeq_ext (key : BitVec 7) (lo : Opcode) :
    decodeSeq priv next pc dr [insnWord 1 key rb ra, lo] =
      decodeInsn priv pc (insnWord 1 key rb ra) lo dr := by
  simp [decodeSeq, insnWord_ext]

theorem executed_ext (hm : m ≠ .imm) (lo : Opcode) (hlo : lo.extractLsb 14 13 ≠ 0b11#2)
    (hdr : dr.imflag = false) :
    executed (decodeSeq priv next pc dr [insnWord 1 m.key rb ra, lo]) =
      ((m.executes priv 0 rb ra).extend priv lo (regaddress priv rb)).withCondition
        (opdecCondition (lo.extractLsb 11 8)) := by
  rw [decodeSeq_ext, (Mnemonic.covers_key hm).executed 1 rb ra lo priv pc dr
    (fun him => hlo him.2), Mnemonic.executes_key hm]
  simp [hdr]

theorem decodeSeq_e24_short (v : Int) (cond : BitVec 4) (key : BitVec 7) :
    decodeSeq priv next pc dr [e24High v, e24Low cond v, insnWord 0 key rb ra] =
      decodeInsn priv (pc + 4) (insnWord 0 key rb ra) next
        (decodeInsn priv pc (e24High v) (e24Low cond v) dr) := by
  simp [decodeSeq, e24High_ext]

theorem executed_e24_short (hm : m ≠ .imm) (v : Int) (cond : BitVec 4) (hdr : dr.imflag = false) :
    executed (decodeSeq priv next pc dr [e24High v, e24Low cond v, insnWord 0 m.key rb ra]) =
      (m.executes priv 0 rb ra).withCondition (opdecCondition cond) := by
  obtain ⟨hflag, hcond, _⟩ := decodeInsn_e24 priv pc cond v hdr
  rw [decodeSeq_e24_short, (Mnemonic.covers_key hm).executed 0 rb ra next priv _ _ (by simp),
    Mnemonic.executes_key hm]
  simp [hflag, hcond]

theorem executed_e24_ext (hm : m ≠ .imm) (v : Int) (cond : BitVec 4) (lo : Opcode)
    (hlo : lo.extractLsb 14 13 ≠ 0b11#2) (hdr : dr.imflag = false) :
    executed (decodeSeq priv next pc dr [e24High v, e24Low cond v, insnWord 1 m.key rb ra, lo]) =
      ((m.executes priv 0 rb ra).extend priv lo (regaddress priv rb)).withCondition
        (opdecCondition cond) := by
  have hseq : decodeSeq priv next pc dr [e24High v, e24Low cond v, insnWord 1 m.key rb ra, lo] =
      decodeInsn priv (pc + 4) (insnWord 1 m.key rb ra) lo
        (decodeInsn priv pc (e24High v) (e24Low cond v) dr) := by
    simp [decodeSeq, e24High_ext, insnWord_ext]
  obtain ⟨hflag, hcond, _⟩ := decodeInsn_e24 priv pc cond v hdr
  rw [hseq, (Mnemonic.covers_key hm).executed 1 rb ra lo priv _ _ (fun him => hlo him.2),
    Mnemonic.executes_key hm]
  simp [hflag, hcond]

/-- The extension word of a `d` suffix without a condition. -/
theorem executed_dreg (hm : m ≠ .imm) (d : BitVec 8) (hdr : dr.imflag = false) :
    executed (decodeSeq priv next pc dr [insnWord 1 m.key rb ra, 2#4 ++ 0#4 ++ d]) =
      (m.executes priv 0 rb ra).withDest (regaddress priv (d.setWidth 4)) := by
  have htop : (2#4 ++ 0#4 ++ d).extractLsb 14 12 = 0b010#3 := by
    apply BitVec.eq_of_getLsbD_eq
    intro i hi
    simp only [BitVec.getLsbD_extractLsb, BitVec.getLsbD_append]
    interval_cases i <;> simp
  have hload : (2#4 ++ 0#4 ++ d).extractLsb 14 13 = 0b01#2 := by
    apply BitVec.eq_of_getLsbD_eq
    intro i hi
    simp only [BitVec.getLsbD_extractLsb, BitVec.getLsbD_append]
    interval_cases i <;> simp
  have hreg : (2#4 ++ 0#4 ++ d).extractLsb 3 0 = d.setWidth 4 := by
    apply BitVec.eq_of_getLsbD_eq
    intro i hi
    simp only [BitVec.getLsbD_extractLsb, BitVec.getLsbD_append, BitVec.getLsbD_setWidth]
    interval_cases i <;> simp
  have hcond : (2#4 ++ 0#4 ++ d).extractLsb 11 8 = 0#4 := Bits.extractLsb'_field _ _ _
  rw [executed_ext rb ra priv next pc hm _ (by rw [hload]; decide) hdr, hcond, Executed.extend,
    if_pos htop, hreg]
  exact Executed.withCondition_self (m.executes_condition ..)

theorem executed_ext_condition (key : BitVec 7) (lo : Opcode) (hdr : dr.imflag = false) :
    (executed (decodeSeq priv next pc dr [insnWord 1 key rb ra, lo])).condition =
      opdecCondition (lo.extractLsb 11 8) := by
  rw [decodeSeq_ext, executed_decodeInsn, opdec_condition, insnWord_ext, hdr]
  rfl

end Sequences

/-! ## Reading a line -/

namespace Line

variable {l : Line} (priv : Bool)

theorem executes_eq {f : Fields} (hf : l.fields = some f) {y : Executed}
    (hy : l.flags.apply priv f (l.mnemonic.executes priv f.copId f.rb f.ra) = some y) :
    l.executes priv = some (y.withCondition l.named) := by
  simp [executes, hf, hy]

theorem executes_eq_none {f : Fields} (hf : l.fields = some f)
    (hy : l.flags.apply priv f (l.mnemonic.executes priv f.copId f.rb f.ra) = none) :
    l.executes priv = none := by
  simp only [executes, hf, Option.bind_eq_bind, Option.bind_some, hy, Option.bind_none]

theorem apply_self {f : Fields} {x : Executed} (hop : x.op ≠ .alu) (hflags : l.flags ≠ .dreg) :
    l.flags.apply priv f x = some x := by
  cases hl : l.flags with
  | none => rfl
  | immed => simp [ExtFlags.apply, Executed.withImmediate, hop]
  | dreg => exact absurd hl hflags

end Line

end Xtc.Tools
