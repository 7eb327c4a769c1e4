import Xtc.Tools.Assembled
import Xtc.Tools.Width

/-!
# Kept — the lines that reach the hardware as written

`md_assemble` against the decoder: what an accepted line has been read as, type by type, and the
condition under which the emitted words decode to what the line asks for.
-/

namespace Xtc.Tools

open Xtc.Linker

/-! ## Operands of an accepted line -/

section Parsing

variable {ops rest : List Operand}

theorem bind_ok {α β : Type} {x : Asm α} {f : α → Asm β} {b : β} :
    (x >>= f) = .ok b ↔ ∃ a, x = .ok a ∧ f a = .ok b := by
  cases x <;> simp [bind, Except.bind]

theorem requireGpr_ok {r : Fin 32} {u : Unit} (h : requireGpr r = .ok u) : r.val < 16 := by
  unfold requireGpr checkGprReg at h
  split at h
  next hr => simpa using hr
  next => cases h

theorem requireSpr_ok {r : Fin 32} {u : Unit} (h : requireSpr r = .ok u) : 16 ≤ r.val := by
  unfold requireSpr checkGprReg at h
  split at h
  next => cases h
  next hr => simpa using hr

theorem parseReg_ok {r : Fin 32} (h : parseReg ops = .ok (r, rest)) : ops = .reg r :: rest := by
  unfold parseReg at h
  split at h <;> cases h
  rfl

theorem parseImm_ok {min max : Int} {e : Expr} (h : parseImm min max ops = .ok (e, rest)) :
    ops = .imm e :: rest ∧ ∀ v, e = .constant v → min ≤ v.toInt ∧ v.toInt ≤ max := by
  unfold parseImm at h
  split at h
  next => cases h
  next v rest' =>
    split at h
    next => cases h
    next hr =>
      cases h
      refine ⟨rfl, fun v hv => ?_⟩
      cases hv
      omega
  next e' rest' hne =>
    cases h
    exact ⟨rfl, fun v hv => absurd hv (hne v)⟩
  next => cases h

theorem parseConstant_ok {min max : Int} {e : Diagnostic} {v : Word}
    (h : Line.parseConstant min max e ops = .ok (v, rest)) :
    ops = .imm (.constant v) :: rest ∧ min ≤ v.toInt ∧ v.toInt ≤ max := by
  obtain ⟨⟨x, rest'⟩, hx, hv⟩ := bind_ok.mp h
  obtain ⟨rfl, hrange⟩ := parseImm_ok hx
  cases x with
  | constant w =>
    cases hv
    exact ⟨rfl, hrange v rfl⟩
  | symbol w => cases hv

theorem toNat_lt {v : Word} {k : Nat} (hlo : 0 ≤ v.toInt) (hhi : v.toInt ≤ k) :
    v.toNat < k + 1 := by
  have hv := v.isLt
  rw [BitVec.toInt_eq_toNat_cond] at hlo hhi
  split at hlo <;> omega

theorem parseMemory_ok {base : Fin 32} {disp : Option Expr}
    (h : parseMemory ops = .ok (base, disp, rest)) :
    ops = .mem base disp :: rest ∧ base.val < 16 := by
  unfold parseMemory at h
  split at h
  next base' disp' rest' =>
    split at h
    next hb =>
      cases h
      exact ⟨rfl, by simpa [checkGprReg] using hb⟩
    next => cases h
  next => cases h

theorem noExtraOperands_ok {u : Unit} (h : noExtraOperands ops = .ok u) : ops = [] := by
  unfold noExtraOperands at h
  split at h <;> cases h
  rfl

end Parsing

namespace Line

/-- The lines that reach the hardware as written. -/
def Kept (l : Line) : Prop :=
  match l.instType with
  | .r1R2 =>
      match l.flags, l.operands with
      -- a condition alone is dropped with its extension word
      | .none, _ => l.cond = none
      -- a long immediate goes to a prefix, without the form that would use it
      | .immed, _ :: _ :: .imm e :: _ =>
          -128 ≤ e.xAddNumber.toInt ∧ e.xAddNumber.toInt < 128 ∨
            l.cond = none ∧ l.mnemonic.takesImmediate = false
      | .dreg, _ :: _ :: .reg d :: _ => l.cond = none ∧ (l.mnemonic = .cmp ∨ d.val < 16)
      | _, _ => True
  | .memLoad | .memStore => l.cond = none
  | .imm8R =>
      match l.flags, l.operands with
      | .dreg, _ :: .reg a :: .reg d :: _ => d = a
      | .dreg, _ => False
      | _, _ => True
  | .cop =>
      match l.operands with
      | .imm id :: _ :: .reg a :: _ => id.xAddNumber = 0 ∧ a.val < 16
      | _ => True
  | .rspr =>
      match l.operands with
      | .reg s :: _ => s.val < 24
      | _ => True
  | .wspr =>
      match l.operands with
      | _ :: .reg s :: _ => s.val < 24
      | _ => True
  | .noargs | .imm => True

theorem named_eq (l : Line) : l.named = opdecCondition l.condition := by
  unfold named condition
  cases l.cond with
  | none => rfl
  | some c => cases c <;> rfl

theorem named_eq_iff (l : Line) : l.named = .unconditional ↔ l.cond = none := by
  unfold named
  cases l.cond with
  | none => simp
  | some c => cases c <;> simp [CondCode.condition]

end Line

theorem Mnemonic.noImm_of_r1R2 {m : Mnemonic} (h : m.entry.instType = .r1R2) :
    m.entry.imm = .noImm := by
  cases m <;> first | rfl | cases h

theorem Mnemonic.dest_isNone_iff {m : Mnemonic} (h : m.entry.ext = .canExtAll) (p : Bool)
    (i : BitVec 2) (rb ra : BitVec 4) :
    (m.executes p i rb ra).dest.isNone = true ↔ m = .cmp := by
  cases m
  case cmp => exact iff_of_true rfl rfl
  all_goals first | exact iff_of_false Bool.false_ne_true nofun | cases h

theorem Mnemonic.eq_addi {m : Mnemonic} (h : m.entry.ext = .canExtAll)
    (hty : m.entry.instType = .imm8R) : m = .addi := by
  revert h hty
  cases m <;> decide

theorem gpr_eq_iff : ∀ a d : Fin 32, a.val < 16 →
    (gpr d = some (BitVec.ofNat 4 a) ↔ d = a) := by
  decide

theorem Mnemonic.noExt_of_instType {m : Mnemonic} (h : m.entry.instType = .cop ∨
    m.entry.instType = .rspr ∨ m.entry.instType = .wspr ∨ m.entry.instType = .noargs) :
    m.entry.ext = .noExt := by
  revert h
  cases m <;> decide

theorem Mnemonic.canExtImmed_of_memory {m : Mnemonic} (h : m.entry.instType = .memLoad ∨
    m.entry.instType = .memStore) : m.entry.ext = .canExtImmed := by
  revert h
  cases m <;> decide

theorem Mnemonic.cop_key {m : Mnemonic} (h : m.entry.instType = .cop) :
    m.key.extractLsb 1 0 = 0#2 := by
  cases m <;> first | rfl | cases h

/-- A coprocessor id that is not zero arrives doubled. -/
theorem copId_shift (key : BitVec 7) (hkey : key.extractLsb 1 0 = 0#2) (id : BitVec 2)
    (h : (key ||| id.setWidth 7 <<< 1).extractLsb 1 0 = id) : id = 0 := by
  revert key id
  decide

theorem cop_covers {m : Mnemonic} (h : m.entry.instType = .cop) (id : BitVec 2) :
    ∃ m' : Mnemonic, m'.entry.instType = .cop ∧ m'.Covers (m.key ||| id.setWidth 7 <<< 1) ∧
      (id = 0 → m' = m) := by
  cases m
  case copr =>
    by_cases hid : id.toNat < 2
    · exact ⟨.copr, rfl, by revert id; decide, fun _ => rfl⟩
    · exact ⟨.copw, rfl, by revert id; decide, by rintro rfl; exact absurd (by decide) hid⟩
  case copw => exact ⟨.copw, rfl, by revert id; decide, fun _ => rfl⟩
  all_goals cases h

theorem Executed.withImmediate_withCondition {x : Executed} {b : RegAddress} {c d : Condition} :
    (x.withImmediate b).withCondition c = x.withCondition d ↔ c = d ∧ x.withImmediate b = x := by
  have hcond : (x.withImmediate b).condition = x.condition := by
    unfold Executed.withImmediate
    split <;> rfl
  constructor
  · intro h
    refine ⟨congrArg Executed.condition h, ?_⟩
    have h' := congrArg (Executed.withCondition x.condition) h
    rw [← Executed.withCondition_self hcond]
    exact h'
  · rintro ⟨rfl, h⟩
    rw [h]

/-! ## Bits -/

/-- The numbers that need no prefix. -/
theorem xtcCountBits_le_iff (v : Word) :
    xtcCountBits v ≤ 8 ↔ -128 ≤ v.toInt ∧ v.toInt < 128 :=
  xtcCountBits_le_iff_range v (by decide) (by decide)

/-! ## Lines -/

namespace Line

section Kept

variable {l : Line} {frag : Frag} (priv : Bool) (next : Opcode) (pc : Word) {dr : DecodeRegs}

theorem ne_imm (h : l.instType ≠ .imm) : l.mnemonic ≠ .imm :=
  fun hm => h (by rw [instType, hm]; rfl)

theorem word_eq (hm : l.mnemonic ≠ .imm) (reg1 reg2 : Nat) :
    instBytes (instRegs l.mnemonic.entry.bitSequence reg1 reg2) =
      insnWord 0 l.mnemonic.key (BitVec.ofNat 4 reg2) (BitVec.ofNat 4 reg1) := by
  rw [Mnemonic.bitSequence_eq hm, instBytes_instRegs]

theorem word_ext_eq (hm : l.mnemonic ≠ .imm) (reg1 reg2 : Nat) :
    instBytes (instRegs l.mnemonic.entry.bitSequence reg1 reg2 ||| 0x8000) =
      insnWord 1 l.mnemonic.key (BitVec.ofNat 4 reg2) (BitVec.ofNat 4 reg1) := by
  rw [instBytes_extended, word_eq hm, insnWord_extended]

/-- A plain instruction word drops the condition of the line. -/
theorem kept_plain {x : Executed} (hx : x.condition = .unconditional) :
    some (x.withCondition l.named) = some x ↔ l.cond = none := by
  rw [← l.named_eq_iff, Option.some_inj]
  nth_rewrite 2 [← Executed.withCondition_self hx]
  exact Executed.withCondition_inj

theorem assembleMemory_kept (hty : l.instType = .memLoad ∨ l.instType = .memStore)
    {a b : Fin 32} {disp : Option Expr} {ops : List Operand}
    (hf : b.val < 16 → l.fields = some ⟨0, BitVec.ofNat 4 b, BitVec.ofNat 4 a, ops⟩)
    (hflags : l.flags ≠ .dreg) (h : l.assembleMemory a b disp ops = .ok frag)
    (hdr : dr.imflag = false) :
    l.executes priv = some (executed (decodeSeq priv next pc dr frag.words)) ↔ l.cond = none := by
  obtain ⟨_, -, h⟩ := bind_ok.mp h
  obtain ⟨_, hb, h⟩ := bind_ok.mp h
  have hm := ne_imm (l := l) (by rcases hty with h | h <;> rw [h] <;> decide)
  have hreg : l.instType ≠ .r1R2 := by rcases hty with h | h <;> rw [h] <;> decide
  have hop := Mnemonic.executes_op_ne hreg priv 0 (BitVec.ofNat 4 b) (BitVec.ofNat 4 a)
  have hcond := l.mnemonic.executes_condition priv 0 (BitVec.ofNat 4 b) (BitVec.ofNat 4 a)
  rw [executes_eq priv (hf (requireGpr_ok hb)) (apply_self priv hop hflags)]
  cases hd : disp.isSome with
  | true =>
    rw [hd] at h
    cases h
    have hlo : (e8Low 0 0).extractLsb 14 13 ≠ 0b11#2 := by decide
    have hseq := executed_e24_ext (BitVec.ofNat 4 b) (BitVec.ofNat 4 a) priv next pc hm 0 0
      (e8Low 0 0) hlo hdr
    rw [xtcEmitE24_eq, word_ext_eq hm]
    refine Iff.trans (Eq.congr_right (congrArg some ?_)) (kept_plain hcond)
    refine hseq.trans ?_
    rw [Executed.extend, e8Low_top, if_neg (by decide), if_pos rfl, Executed.withImmediate,
      if_neg hop]
    exact Executed.withCondition_self hcond
  | false =>
    rw [hd] at h
    obtain ⟨_, -, h⟩ := bind_ok.mp h
    cases h
    rw [word_eq hm, executed_plain _ _ priv next pc hm hdr]
    exact kept_plain hcond

theorem assembleSpr_kept (hty : l.instType = .rspr ∨ l.instType = .wspr) {a s : Fin 32}
    {ops : List Operand} (hf : l.fields = do return ⟨0, ← spr s, ← gpr a, ops⟩)
    (hsuffix : l.suffix = none) (h : l.assembleSpr a s ops = .ok frag) (hdr : dr.imflag = false) :
    l.executes priv = some (executed (decodeSeq priv next pc dr frag.words)) ↔ s.val < 24 := by
  obtain ⟨_, ha, h⟩ := bind_ok.mp h
  obtain ⟨_, hs, h⟩ := bind_ok.mp h
  obtain ⟨_, -, h⟩ := bind_ok.mp h
  cases h
  have hm := ne_imm (l := l) (by rcases hty with h | h <;> rw [h] <;> decide)
  have hge : 16 ≤ s.val := requireSpr_ok hs
  rw [Mnemonic.bitSequence_eq hm, instBytes_spr,
    executed_plain _ _ priv next pc hm hdr]
  by_cases hlt : s.val < 24
  · have hspr : spr s = some (BitVec.ofNat 4 (s.val - 16)) := if_pos ⟨hge, hlt⟩
    have hgpr : gpr a = some (BitVec.ofNat 4 a.val) := if_pos (requireGpr_ok ha)
    have hbits : (BitVec.ofNat 3 (s.val - 16)).setWidth 4 = BitVec.ofNat 4 (s.val - 16) := by
      apply BitVec.eq_of_toNat_eq
      simp only [BitVec.toNat_setWidth, BitVec.toNat_ofNat]
      omega
    have hflags : l.flags = .none := by simp [flags, hsuffix]
    have hnamed : l.named = .unconditional := by simp [named, cond, hsuffix]
    have hf' : l.fields =
        some ⟨0, BitVec.ofNat 4 (s.val - 16), BitVec.ofNat 4 a.val, ops⟩ := by
      rw [hf, hspr, hgpr]
      rfl
    rw [executes_eq priv hf' (by rw [hflags]; rfl), hnamed, hbits]
    exact iff_of_true
      (congrArg some (Executed.withCondition_self (l.mnemonic.executes_condition ..))) hlt
  · have hspr : spr s = none := if_neg (fun h => hlt h.2)
    have hnone : l.executes priv = none := by simp [executes, hf, hspr]
    rw [hnone]
    exact iff_of_false (Option.some_ne_none _).symm hlt

theorem executes_condition {x : Executed} (h : l.executes priv = some x) :
    x.condition = l.named := by
  simp only [executes, Option.bind_eq_bind, Option.bind_eq_some_iff, Option.pure_def,
    Option.some_inj] at h
  obtain ⟨f, -, y, -, rfl⟩ := h
  rfl

theorem suffix_eq_none (hext : l.checkExtension = .ok ()) (h : l.mnemonic.entry.ext = .noExt) :
    l.suffix = none := by
  unfold checkExtension at hext
  cases hs : l.suffix with
  | none => rfl
  | some s => simp [hs, h] at hext

theorem canExtAll_of_dreg (hext : l.checkExtension = .ok ()) (hflags : l.flags = .dreg) :
    l.mnemonic.entry.ext = .canExtAll := by
  have hsuffix : l.suffix.isNone = false := by
    cases hs : l.suffix with
    | none => simp [flags, hs] at hflags
    | some s => rfl
  have hne : l.mnemonic.entry.ext ≠ .canExtDreg := by
    cases l.mnemonic <;> exact nofun
  unfold checkExtension at hext
  rw [hsuffix] at hext
  cases hx : l.mnemonic.entry.ext with
  | canExtAll => rfl
  | canExtDreg => exact absurd hx hne
  | isExt => simp [hx] at hext
  | noExt => simp [hx] at hext
  | canExtImmed => simp [hx, hflags] at hext

/-- The words of a register instruction, by the suffix. -/
theorem assembleR1R2_ok {a b : Fin 32} {ops : List Operand}
    (h : l.assembleR1R2 a b ops = .ok frag) :
    a.val < 16 ∧ b.val < 16 ∧
    match l.flags with
    | .none => ops = [] ∧ frag.words = [instBytes (instRegs l.mnemonic.entry.bitSequence a b)]
    | .immed => ∃ e, ops = [.imm e] ∧
        let out := xtcEmitImmedAndFrag l.mnemonic.entry.imm l.condition .immed
          (instRegs l.mnemonic.entry.bitSequence a b) e.xAddNumber
        frag.words = out.1 ++ [instBytes out.2.1] ++ out.2.2
    | .dreg => ∃ d : Fin 32, ops = [.reg d] ∧
        let inst := makeExtended (instRegs l.mnemonic.entry.bitSequence a b) l.condition .dreg
          (BitVec.ofNat 32 d)
        frag.words = [instBytes (inst >>> 16), instBytes inst] := by
  obtain ⟨_, ha, h1⟩ := bind_ok.mp h
  obtain ⟨_, hb, h2⟩ := bind_ok.mp h1
  refine ⟨requireGpr_ok ha, requireGpr_ok hb, ?_⟩
  cases hflags : l.flags with
  | none =>
    rw [hflags] at h2
    obtain ⟨_, hops, h3⟩ := bind_ok.mp h2
    cases h3
    exact ⟨noExtraOperands_ok hops, rfl⟩
  | immed =>
    rw [hflags] at h2
    obtain ⟨⟨e, rest⟩, he, h3⟩ := bind_ok.mp h2
    obtain ⟨_, hrest, h4⟩ := bind_ok.mp h3
    cases h4
    exact ⟨e, by rw [(parseImm_ok he).1, noExtraOperands_ok hrest], rfl⟩
  | dreg =>
    rw [hflags] at h2
    obtain ⟨⟨d, rest⟩, hd, h3⟩ := bind_ok.mp h2
    obtain ⟨_, hrest, h4⟩ := bind_ok.mp h3
    cases h4
    exact ⟨d, by rw [parseReg_ok hd, noExtraOperands_ok hrest], rfl⟩

/-- The words of an instruction with an immediate: up to eight bits go into an extension word, more
into a prefix before an instruction without one. -/
theorem immediate_words (hm : l.mnemonic ≠ .imm) (hty : l.instType = .r1R2) (a b : Nat)
    (v : Word) :
    let out := xtcEmitImmedAndFrag l.mnemonic.entry.imm l.condition .immed
      (instRegs l.mnemonic.entry.bitSequence a b) v
    out.1 ++ [instBytes out.2.1] ++ out.2.2 =
      if xtcCountBits v ≤ 8 then
        [insnWord 1 l.mnemonic.key (BitVec.ofNat 4 b) (BitVec.ofNat 4 a),
          e8Low l.condition (v.setWidth 8)]
      else
        [e24High v.toInt, e24Low 0 v.toInt,
          insnWord 0 l.mnemonic.key (BitVec.ofNat 4 b) (BitVec.ofNat 4 a)] := by
  have himm := Mnemonic.noImm_of_r1R2 hty
  by_cases hbits : xtcCountBits v ≤ 8
  · rw [if_pos hbits, ← word_ext_eq hm]
    simp [xtcEmitImmedAndFrag, himm, hbits, xtcBuildExtension_immed]
  · rw [if_neg hbits]
    simp [xtcEmitImmedAndFrag, himm, hbits, xtcEmitE24_eq, word_eq hm]

theorem kept_immed (hm : l.mnemonic ≠ .imm) (hty : l.instType = .r1R2) (a b : Nat) (v : Word)
    (hdr : dr.imflag = false) :
    let x := l.mnemonic.executes priv 0 (BitVec.ofNat 4 b) (BitVec.ofNat 4 a)
    let out := xtcEmitImmedAndFrag l.mnemonic.entry.imm l.condition .immed
      (instRegs l.mnemonic.entry.bitSequence a b) v
    (x.withImmediate (regaddress priv (BitVec.ofNat 4 b))).withCondition l.named =
      executed (decodeSeq priv next pc dr (out.1 ++ [instBytes out.2.1] ++ out.2.2)) ↔
    (-128 ≤ v.toInt ∧ v.toInt < 128) ∨ l.cond = none ∧ l.mnemonic.takesImmediate = false := by
  simp only [immediate_words hm hty]
  rw [← xtcCountBits_le_iff]
  by_cases hbits : xtcCountBits v ≤ 8
  · have hseq := executed_ext (BitVec.ofNat 4 b) (BitVec.ofNat 4 a) priv next pc hm
      (e8Low l.condition (v.setWidth 8)) (by rw [e8Low_load]; decide) hdr
    rw [e8Low_cond, Executed.extend, e8Low_top, if_neg (by decide), if_pos rfl,
      ← l.named_eq] at hseq
    rw [if_pos hbits]
    exact iff_of_true hseq.symm (.inl hbits)
  · have hseq := executed_e24_short (BitVec.ofNat 4 b) (BitVec.ofNat 4 a) priv next pc hm
      v.toInt 0 hdr
    rw [if_neg hbits, or_iff_right hbits, ← l.named_eq_iff,
      ← l.mnemonic.withImmediate_eq_iff priv 0 (BitVec.ofNat 4 b) (BitVec.ofNat 4 a),
      ← Executed.withImmediate_withCondition]
    exact Eq.congr_right hseq

theorem kept_dreg (hm : l.mnemonic ≠ .imm) (hall : l.mnemonic.entry.ext = .canExtAll)
    (hflags : l.flags = .dreg) {a b : Nat} (d : Fin 32)
    (hf : l.fields = some ⟨0, BitVec.ofNat 4 b, BitVec.ofNat 4 a, [.reg d]⟩)
    (hdr : dr.imflag = false) :
    let inst := makeExtended (instRegs l.mnemonic.entry.bitSequence a b) l.condition .dreg
      (BitVec.ofNat 32 d)
    l.executes priv =
      some (executed (decodeSeq priv next pc dr [instBytes (inst >>> 16), instBytes inst])) ↔
    l.cond = none ∧ (l.mnemonic = .cmp ∨ d.val < 16) := by
  have hnone := Mnemonic.dest_isNone_iff hall priv 0 (BitVec.ofNat 4 b) (BitVec.ofNat 4 a)
  obtain ⟨hhigh, hlow⟩ := makeExtended_words
    (instRegs l.mnemonic.entry.bitSequence a b) l.condition (BitVec.ofNat 32 d)
  rw [word_eq hm, insnWord_extended] at hhigh
  simp only [hhigh, hlow, setWidth_ofNat _ 8 (by omega : 8 ≤ 32)]
  by_cases hc : l.cond = none
  · have hzero : l.condition = 0 := by simp [condition, hc]
    have hnamed : l.named = .unconditional := l.named_eq_iff.mpr hc
    have hd4 : (BitVec.ofNat 8 d).setWidth 4 = BitVec.ofNat 4 d :=
      BitVec.setWidth_ofNat_of_le (by omega) _
    have hseq := executed_dreg (BitVec.ofNat 4 b) (BitVec.ofNat 4 a) priv next pc hm
      (BitVec.ofNat 8 d) hdr
    rw [hd4] at hseq
    have hlow0 : (l.condition ||| 2#4) = 2#4 := by rw [hzero]; rfl
    rw [hlow0, hseq]
    by_cases hcmp : l.mnemonic = .cmp
    · have happly : l.flags.apply priv ⟨0, BitVec.ofNat 4 b, BitVec.ofNat 4 a, [.reg d]⟩
          (l.mnemonic.executes priv 0 (BitVec.ofNat 4 b) (BitVec.ofNat 4 a)) =
          some (l.mnemonic.executes priv 0 (BitVec.ofNat 4 b) (BitVec.ofNat 4 a)) := by
        rw [hflags]
        exact if_pos (hnone.mpr hcmp)
      rw [executes_eq priv hf happly, Executed.withDest_of_isNone (hnone.mpr hcmp), hnamed]
      exact iff_of_true
        (congrArg some (Executed.withCondition_self (l.mnemonic.executes_condition ..)))
        ⟨hc, .inl hcmp⟩
    · have happly : l.flags.apply priv ⟨0, BitVec.ofNat 4 b, BitVec.ofNat 4 a, [.reg d]⟩
          (l.mnemonic.executes priv 0 (BitVec.ofNat 4 b) (BitVec.ofNat 4 a)) =
          (gpr d).map fun r => (l.mnemonic.executes priv 0 (BitVec.ofNat 4 b)
            (BitVec.ofNat 4 a)).withDest (regaddress priv r) := by
        rw [hflags]
        exact if_neg (fun h => hcmp (hnone.mp h))
      by_cases hlt : d.val < 16
      · have hgpr : gpr d = some (BitVec.ofNat 4 d.val) := if_pos hlt
        rw [hgpr] at happly
        rw [executes_eq priv hf happly, hnamed]
        exact iff_of_true
          (congrArg some (Executed.withCondition_self (l.mnemonic.executes_condition ..)))
          ⟨hc, .inr hlt⟩
      · have hgpr : gpr d = none := if_neg hlt
        rw [hgpr] at happly
        rw [executes_eq_none priv hf happly]
        exact iff_of_false nofun (fun h => h.2.elim hcmp hlt)
  · refine iff_of_false (fun h => hc ?_) (fun h => hc h.1)
    rw [← l.named_eq_iff, ← executes_condition priv h, executed_ext_condition _ _ _ _ _ _ _ hdr]
    exact congrArg opdecCondition (Bits.extractLsb'_field _ 0#4 _)

theorem assembleR1R2_kept (hty : l.instType = .r1R2) {a b : Fin 32} {ops : List Operand}
    (hops : l.operands = .reg b :: .reg a :: ops) (hext : l.checkExtension = .ok ())
    (h : l.assembleR1R2 a b ops = .ok frag) (hdr : dr.imflag = false) :
    l.executes priv = some (executed (decodeSeq priv next pc dr frag.words)) ↔ l.Kept := by
  obtain ⟨ha, hb, hwords⟩ := assembleR1R2_ok h
  have hm := ne_imm (l := l) (by rw [hty]; decide)
  have hf : l.fields = some ⟨0, BitVec.ofNat 4 b, BitVec.ofNat 4 a, ops⟩ := by
    simp [fields, hty, hops, gpr, ha, hb]
  cases hflags : l.flags with
  | none =>
    rw [hflags] at hwords
    rw [hwords.2, executes_eq priv hf (by rw [hflags]; rfl), word_eq hm,
      executed_plain _ _ priv next pc hm hdr]
    refine (kept_plain (l.mnemonic.executes_condition ..)).trans ?_
    simp [Kept, hty, hflags]
  | immed =>
    rw [hflags] at hwords
    obtain ⟨e, rfl, hwords⟩ := hwords
    rw [hwords, executes_eq priv hf (by rw [hflags]; rfl), Option.some_inj]
    refine (kept_immed priv next pc hm hty a b e.xAddNumber hdr).trans ?_
    simp [Kept, hty, hflags, hops]
  | dreg =>
    rw [hflags] at hwords
    obtain ⟨d, rfl, hwords⟩ := hwords
    rw [hwords]
    have hall := canExtAll_of_dreg hext hflags
    refine (kept_dreg priv next pc hm hall hflags d hf hdr).trans ?_
    simp [Kept, hty, hflags, hops]

theorem instRegs_zero (inst : Word) (reg1 : Nat) :
    inst ||| (BitVec.ofNat 32 reg1 &&& 0x000F#32) = instRegs inst reg1 0 := by
  simp [instRegs]

theorem assembleImm8R_words {a : Fin 32} (h : l.assembleImm8R a = .ok frag) :
    a.val < 16 ∧ frag.words = xtcEmitE24 0 l.condition ++
      [instBytes (instRegs l.mnemonic.entry.bitSequence a 0)] := by
  obtain ⟨_, ha, h1⟩ := bind_ok.mp h
  refine ⟨requireGpr_ok ha, ?_⟩
  rw [instRegs_zero] at h1
  by_cases hc : l.condition ≠ 0
  · rw [if_pos hc] at h1
    cases h1
    rfl
  · rw [if_neg hc] at h1
    cases h1
    rw [not_ne_iff.mp hc]

/-- `addi` with a third register still writes its second one. -/
theorem kept_addi {f : Fields} (haddi : l.mnemonic = .addi) (hflags : l.flags = .dreg)
    (hf : l.fields = some f) :
    l.executes priv = some ((l.mnemonic.executes priv f.copId f.rb f.ra).withCondition l.named) ↔
      third f.rest = some f.ra := by
  have happly : l.flags.apply priv f (l.mnemonic.executes priv f.copId f.rb f.ra) =
      (third f.rest).map fun d =>
        (l.mnemonic.executes priv f.copId f.rb f.ra).withDest (regaddress priv d) := by
    rw [hflags, haddi]
    rfl
  cases ht : third f.rest with
  | none =>
    rw [ht] at happly
    rw [executes_eq_none priv hf happly]
    exact iff_of_false nofun nofun
  | some d =>
    rw [ht] at happly
    rw [executes_eq priv hf happly, haddi, Option.some_inj, Option.some_inj]
    constructor
    · intro h
      exact regaddress_inj priv (Option.some_inj.mp (congrArg Executed.dest h))
    · rintro rfl
      rfl

theorem assembleImm8R_kept (hty : l.instType = .imm8R) {a : Fin 32} {e : Expr}
    {ops : List Operand} (hops : l.operands = .imm e :: .reg a :: ops)
    (hext : l.checkExtension = .ok ()) (h : l.assembleImm8R a = .ok frag)
    (hdr : dr.imflag = false) :
    l.executes priv = some (executed (decodeSeq priv next pc dr frag.words)) ↔ l.Kept := by
  obtain ⟨ha, hwords⟩ := assembleImm8R_words h
  have hm := ne_imm (l := l) (by rw [hty]; decide)
  have hreg : l.instType ≠ .r1R2 := by rw [hty]; decide
  have hf : l.fields = some ⟨0, 0, BitVec.ofNat 4 a, ops⟩ := by
    simp [fields, hty, hops, gpr, ha]
  have hseq : executed (decodeSeq priv next pc dr frag.words) =
      (l.mnemonic.executes priv 0 0 (BitVec.ofNat 4 a)).withCondition l.named := by
    rw [hwords, xtcEmitE24_eq, word_eq hm, l.named_eq]
    exact executed_e24_short _ _ priv next pc hm 0 _ hdr
  rw [hseq]
  by_cases hflags : l.flags = .dreg
  · have haddi := Mnemonic.eq_addi (canExtAll_of_dreg hext hflags) hty
    refine (kept_addi priv haddi hflags hf).trans ?_
    cases ops with
    | nil => simp [Kept, hty, hflags, hops, third]
    | cons o rest =>
      cases o with
      | reg d => simpa [Kept, hty, hflags, hops, third] using gpr_eq_iff a d ha
      | imm e' => simp [Kept, hty, hflags, hops, third]
      | mem b disp => simp [Kept, hty, hflags, hops, third]
  · have hop := Mnemonic.executes_op_ne hreg priv 0 0 (BitVec.ofNat 4 a)
    rw [executes_eq priv hf (apply_self priv hop hflags)]
    refine iff_of_true rfl ?_
    cases hl : l.flags with
    | none => simp [Kept, hty, hl]
    | immed => simp [Kept, hty, hl]
    | dreg => exact absurd hl hflags

theorem assembleCop_kept (hty : l.instType = .cop) {id creg : Word} {a : Fin 32}
    {ops : List Operand}
    (hops : l.operands = .imm (.constant id) :: .imm (.constant creg) :: .reg a :: ops)
    (hid : id.toNat < 4) (hcreg : creg.toNat < 16) (hsuffix : l.suffix = none)
    (h : l.assembleCop id creg a ops = .ok frag) (hdr : dr.imflag = false) :
    l.executes priv = some (executed (decodeSeq priv next pc dr frag.words)) ↔
      id = 0 ∧ a.val < 16 := by
  obtain ⟨_, -, h1⟩ := bind_ok.mp h
  cases h1
  have hm := ne_imm (l := l) (by rw [hty]; decide)
  have hid2 : id = (id.setWidth 2).setWidth 32 := by
    apply BitVec.eq_of_toNat_eq
    simp only [BitVec.toNat_setWidth]
    omega
  have hcreg4 : creg = (creg.setWidth 4).setWidth 32 := by
    apply BitVec.eq_of_toNat_eq
    simp only [BitVec.toNat_setWidth]
    omega
  have ha5 : BitVec.ofNat 32 a = (BitVec.ofNat 5 a).setWidth 32 := by
    apply BitVec.eq_of_toNat_eq
    simp only [BitVec.toNat_setWidth, BitVec.toNat_ofNat]
    omega
  obtain ⟨m', hty', hcov, hself⟩ := cop_covers hty (id.setWidth 2)
  have hwords : instBytes (l.mnemonic.entry.bitSequence ||| id <<< 9 ||| creg <<< 4 |||
      BitVec.ofNat 32 a) = insnWord 0 (l.mnemonic.key ||| (id.setWidth 2).setWidth 7 <<< 1)
        (creg.setWidth 4 ||| (BitVec.ofNat 5 a >>> 4).setWidth 4)
        ((BitVec.ofNat 5 a).setWidth 4) := by
    rw [Mnemonic.bitSequence_eq hm, ← instBytes_cop, ← hid2, ← hcreg4, ← ha5]
  rw [hwords, executed_short _ _ priv next pc hcov hdr]
  by_cases ha : a.val < 16
  · have hf : l.fields =
        some ⟨id.setWidth 2, creg.setWidth 4, BitVec.ofNat 4 a, ops⟩ := by
      simp [fields, hty, hops, gpr, ha, hid, hcreg]
    have hflags : l.flags = .none := by simp [flags, hsuffix]
    have hnamed : l.named = .unconditional := by simp [named, cond, hsuffix]
    rw [executes_eq priv hf (by rw [hflags]; rfl), hnamed, Option.some_inj,
      Executed.withCondition_self (l.mnemonic.executes_condition ..)]
    constructor
    · intro heq
      have hcop := congrArg Executed.cop heq
      rw [Mnemonic.executes_cop hty, Mnemonic.executes_cop hty', Option.some_inj,
        Prod.mk.injEq, Prod.mk.injEq] at hcop
      have hzero := copId_shift _ (Mnemonic.cop_key hty) _ hcop.2.1.symm
      rw [hid2, hzero]
      exact ⟨rfl, ha⟩
    · rintro ⟨rfl, -⟩
      have hhigh : (BitVec.ofNat 5 a >>> 4).setWidth 4 = 0#4 := by
        apply BitVec.eq_of_toNat_eq
        simp only [BitVec.toNat_setWidth, BitVec.toNat_ushiftRight, BitVec.toNat_ofNat,
          Nat.shiftRight_eq_div_pow]
        omega
      have hlow : (BitVec.ofNat 5 a).setWidth 4 = BitVec.ofNat 4 a :=
        BitVec.setWidth_ofNat_of_le (by omega) _
      have hkey : (l.mnemonic.key ||| ((0 : Word).setWidth 2).setWidth 7 <<< 1).extractLsb 1 0 =
          (0 : Word).setWidth 2 := by
        rw [show ((0 : Word).setWidth 2).setWidth 7 <<< 1 = 0#7 from rfl, BitVec.or_zero,
          Mnemonic.cop_key hty]
        rfl
      rw [hself rfl, hhigh, hlow, hkey, BitVec.or_zero]
  · have hexec : l.executes priv = none := by simp [executes, fields, hty, hops, gpr, ha]
    rw [hexec]
    exact iff_of_false (Option.some_ne_none _).symm (fun h => ha h.2)

theorem noargs_kept (hty : l.instType = .noargs) (hops : l.operands = [])
    (hsuffix : l.suffix = none) (hdr : dr.imflag = false) :
    l.executes priv = some (executed (decodeSeq priv next pc dr
      [instBytes l.mnemonic.entry.bitSequence])) := by
  have hm := ne_imm (l := l) (by rw [hty]; decide)
  have hf : l.fields = some ⟨0, 0, 0, []⟩ := by simp [fields, hty, hops]
  have hflags : l.flags = .none := by simp [flags, hsuffix]
  have hnamed : l.named = .unconditional := by simp [named, cond, hsuffix]
  have hword : instBytes l.mnemonic.entry.bitSequence = insnWord 0 l.mnemonic.key 0 0 := by
    have := word_eq hm 0 0
    simpa [instRegs] using this
  rw [executes_eq priv hf (by rw [hflags]; rfl), hnamed, hword,
    executed_plain _ _ priv next pc hm hdr]
  exact congrArg some (Executed.withCondition_self (l.mnemonic.executes_condition ..))

end Kept

/-- What the assembler accepts is executed as written exactly for the lines it keeps. -/
theorem assembled_iff (l : Line) {frag : Frag} (h : l.mdAssemble = .ok frag) (priv : Bool)
    (next : Opcode) (pc : Word) {dr : DecodeRegs} (hdr : dr.imflag = false) :
    l.executes priv = some (executed (decodeSeq priv next pc dr frag.words)) ↔ l.Kept := by
  obtain ⟨u, hext, hbody⟩ := bind_ok.mp h
  cases hty : l.instType with
  | rspr =>
    rw [hty] at hbody
    obtain ⟨⟨s, ops⟩, hs, h1⟩ := bind_ok.mp hbody
    obtain ⟨⟨a, ops'⟩, ha, h2⟩ := bind_ok.mp h1
    have hops : l.operands = .reg s :: .reg a :: ops' := by rw [parseReg_ok hs, parseReg_ok ha]
    have hsuffix := suffix_eq_none hext (Mnemonic.noExt_of_instType (.inr (.inl hty)))
    have hf : l.fields = do return ⟨0, ← spr s, ← gpr a, ops'⟩ := by simp [fields, hty, hops]
    refine (assembleSpr_kept priv next pc (.inl hty) hf hsuffix h2 hdr).trans ?_
    simp [Kept, hty, hops]
  | wspr =>
    rw [hty] at hbody
    obtain ⟨⟨a, ops⟩, ha, h1⟩ := bind_ok.mp hbody
    obtain ⟨⟨s, ops'⟩, hs, h2⟩ := bind_ok.mp h1
    have hops : l.operands = .reg a :: .reg s :: ops' := by rw [parseReg_ok ha, parseReg_ok hs]
    have hsuffix := suffix_eq_none hext (Mnemonic.noExt_of_instType (.inr (.inr (.inl hty))))
    have hf : l.fields = do return ⟨0, ← spr s, ← gpr a, ops'⟩ := by simp [fields, hty, hops]
    refine (assembleSpr_kept priv next pc (.inr hty) hf hsuffix h2 hdr).trans ?_
    simp [Kept, hty, hops]
  | memLoad =>
    rw [hty] at hbody
    obtain ⟨⟨a, disp, ops⟩, ha, h1⟩ := bind_ok.mp hbody
    obtain ⟨⟨b, ops'⟩, hb, h2⟩ := bind_ok.mp h1
    obtain ⟨hmem, hlt⟩ := parseMemory_ok ha
    have hops : l.operands = .mem a disp :: .reg b :: ops' := by rw [hmem, parseReg_ok hb]
    refine (assembleMemory_kept priv next pc (.inl hty) ?_ ?_ h2 hdr).trans ?_
    · intro hb16
      simp [fields, hty, hops, gpr, hlt, hb16]
    · intro hd
      have hall := canExtAll_of_dreg hext hd
      rw [Mnemonic.canExtImmed_of_memory (.inl hty)] at hall
      cases hall
    · simp [Kept, hty]
  | memStore =>
    rw [hty] at hbody
    obtain ⟨⟨b, ops⟩, hb, h1⟩ := bind_ok.mp hbody
    obtain ⟨⟨a, disp, ops'⟩, ha, h2⟩ := bind_ok.mp h1
    obtain ⟨hmem, hlt⟩ := parseMemory_ok ha
    have hops : l.operands = .reg b :: .mem a disp :: ops' := by rw [parseReg_ok hb, hmem]
    refine (assembleMemory_kept priv next pc (.inr hty) ?_ ?_ h2 hdr).trans ?_
    · intro hb16
      simp [fields, hty, hops, gpr, hlt, hb16]
    · intro hd
      have hall := canExtAll_of_dreg hext hd
      rw [Mnemonic.canExtImmed_of_memory (.inr hty)] at hall
      cases hall
    · simp [Kept, hty]
  | r1R2 =>
    rw [hty] at hbody
    obtain ⟨⟨b, ops⟩, hb, h1⟩ := bind_ok.mp hbody
    obtain ⟨⟨a, ops'⟩, ha, h2⟩ := bind_ok.mp h1
    have hops : l.operands = .reg b :: .reg a :: ops' := by rw [parseReg_ok hb, parseReg_ok ha]
    exact assembleR1R2_kept priv next pc hty hops hext h2 hdr
  | imm8R =>
    rw [hty] at hbody
    obtain ⟨⟨e, ops⟩, he, h1⟩ := bind_ok.mp hbody
    obtain ⟨⟨a, ops'⟩, ha, h2⟩ := bind_ok.mp h1
    have hops : l.operands = .imm e :: .reg a :: ops' := by
      rw [(parseImm_ok he).1, parseReg_ok ha]
    exact assembleImm8R_kept priv next pc hty hops hext h2 hdr
  | cop =>
    rw [hty] at hbody
    obtain ⟨⟨id, ops⟩, hid, h1⟩ := bind_ok.mp hbody
    obtain ⟨⟨creg, ops'⟩, hcreg, h2⟩ := bind_ok.mp h1
    obtain ⟨⟨a, ops''⟩, ha, h3⟩ := bind_ok.mp h2
    obtain ⟨hid0, hidlo, hidhi⟩ := parseConstant_ok hid
    obtain ⟨hcreg0, hcreglo, hcreghi⟩ := parseConstant_ok hcreg
    have hops : l.operands = .imm (.constant id) :: .imm (.constant creg) :: .reg a :: ops'' := by
      rw [hid0, hcreg0, parseReg_ok ha]
    have hsuffix := suffix_eq_none hext (Mnemonic.noExt_of_instType (.inl hty))
    refine (assembleCop_kept priv next pc hty hops (toNat_lt hidlo hidhi)
      (toNat_lt hcreglo hcreghi) hsuffix h3 hdr).trans ?_
    simp [Kept, hty, hops, Expr.xAddNumber]
  | noargs =>
    rw [hty] at hbody
    obtain ⟨_, hops, h1⟩ := bind_ok.mp hbody
    cases h1
    have hsuffix := suffix_eq_none hext (Mnemonic.noExt_of_instType (.inr (.inr (.inr hty))))
    refine iff_of_true (noargs_kept priv next pc hty (noExtraOperands_ok hops) hsuffix hdr) ?_
    simp [Kept, hty]
  | imm =>
    rw [hty] at hbody
    obtain ⟨_, -, h1⟩ := bind_ok.mp hbody
    cases h1

def addImmediate : Line :=
  ⟨.add, some ⟨some .ne, .immed⟩, [.reg 2, .reg 1, .imm (.constant 5)]⟩

theorem assembled_add_immediate :
    addImmediate.mdAssemble = .ok ⟨[0x8021, 0x4105], none⟩ ∧
      addImmediate.executes true =
        some (executed (decodeSeq true 0 0 decodeReset [0x8021, 0x4105])) := by
  have h : addImmediate.mdAssemble = .ok ⟨[0x8021, 0x4105], none⟩ := rfl
  have hkept : addImmediate.Kept := Or.inl ⟨by decide, by decide⟩
  exact ⟨h, (assembled_iff addImmediate h true 0 0 rfl).mpr hkept⟩

/-- `add.cned r2, r1, r3`, which runs without its condition and into `r1`. -/
def addThird : Line := ⟨.add, some ⟨some .ne, .dreg⟩, [.reg 2, .reg 1, .reg 3]⟩

theorem assembled_condition_lost :
    addThird.mdAssemble = .ok ⟨[0x8021, 0x3003], none⟩ ∧
      addThird.executes true ≠
        some (executed (decodeSeq true 0 0 decodeReset [0x8021, 0x3003])) :=
  ⟨rfl, by decide⟩

end Line

end Xtc.Tools
