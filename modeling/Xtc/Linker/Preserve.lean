import Xtc.Linker.Rewrite

/-!
# Preserve — when relaxation keeps the meaning of a site

What the decoder makes of the words left at a site, against the words laid down by the assembler.
An immediate instruction keeps its meaning on every path through the relaxer.  A memory instruction
loses the condition of a dropped prefix, and a zero value drops the instruction itself.
-/

namespace Xtc.Linker

/-! ## Decoding the words of a site -/

section Sequences

variable (priv : Bool) (next : Opcode) (pc : Word) {dr : DecodeRegs} (cond reg : BitVec 4)
  (cls : BitVec 2) (imm : BitVec 8) (body : BitVec 12) (w : Int)

theorem extractLsb_signExtend (x : BitVec 24) : (x.signExtend 32).extractLsb 23 0 = x := by
  apply BitVec.eq_of_getLsbD_eq
  intro i hi
  simp only [BitVec.getLsbD_extractLsb, BitVec.getLsbD_signExtend]
  simp [show i < 24 by omega]
  omega

theorem decodeSeq_e24_imm (hdr : dr.imflag = false) :
    meaning (decodeSeq priv next pc dr [e24High w, e24Low cond w, immInsn 0 cls imm reg]) =
      immMeaning priv cls reg (opdecCondition cond) ∧
    (decodeSeq priv next pc dr [e24High w, e24Low cond w, immInsn 0 cls imm reg]).imreg =
      BitVec.ofInt 24 w ++ imm := by
  obtain ⟨hflag, hcond, himreg⟩ := decodeInsn_e24 priv pc cond w hdr
  simp only [decodeSeq, e24High_ext, if_true]
  obtain ⟨hm, hi⟩ := decodeInsn_imm_short priv (pc + 4) cls imm reg next
    (decodeInsn priv pc (e24High w) (e24Low cond w) dr)
  rw [hm, hi, hflag, hcond, himreg, extractLsb_signExtend]
  exact ⟨rfl, rfl⟩

theorem decodeSeq_e24_mem (hdr : dr.imflag = false) :
    meaning (decodeSeq priv next pc dr [e24High w, e24Low cond w, memInsn body, e8Low 0 imm]) =
      memMeaning priv body (opdecCondition cond) ∧
    (decodeSeq priv next pc dr [e24High w, e24Low cond w, memInsn body, e8Low 0 imm]).imreg =
      BitVec.ofInt 24 w ++ imm := by
  obtain ⟨hflag, hcond, himreg⟩ := decodeInsn_e24 priv pc cond w hdr
  simp only [decodeSeq, e24High_ext, memInsn_ext, if_true]
  obtain ⟨hm, hi⟩ := decodeInsn_mem priv (pc + 4) body imm
    (decodeInsn priv pc (e24High w) (e24Low cond w) dr)
  rw [hm, hi, hflag, hcond, himreg, extractLsb_signExtend]
  exact ⟨rfl, rfl⟩

theorem decodeSeq_imm_ext (immh : BitVec 8) (hdr : dr.imflag = false) :
    meaning (decodeSeq priv next pc dr [immInsn 1 cls imm reg, e8Low cond immh]) =
      immMeaning priv cls reg (opdecCondition cond) ∧
    (decodeSeq priv next pc dr [immInsn 1 cls imm reg, e8Low cond immh]).imreg =
      (immh ++ imm).signExtend 32 := by
  have hext : (immInsn 1 cls imm reg).getLsbD 15 = true := by rw [immInsn_ext]; rfl
  simp only [decodeSeq, hext, if_true]
  exact decodeInsn_imm_ext priv pc cls imm immh reg cond hdr

theorem decodeSeq_imm (hdr : dr.imflag = false) :
    meaning (decodeSeq priv next pc dr [immInsn 0 cls imm reg]) =
      immMeaning priv cls reg .unconditional ∧
    (decodeSeq priv next pc dr [immInsn 0 cls imm reg]).imreg = imm.signExtend 32 := by
  obtain ⟨hm, hi⟩ := decodeInsn_imm_short priv pc cls imm reg next dr
  simp only [hdr, Bool.false_eq_true, if_false] at hm hi
  exact ⟨hm, hi⟩

theorem decodeSeq_mem (hdr : dr.imflag = false) :
    meaning (decodeSeq priv next pc dr [memInsn body, e8Low 0 imm]) =
      memMeaning priv body .unconditional ∧
    (decodeSeq priv next pc dr [memInsn body, e8Low 0 imm]).imreg = imm.signExtend 32 := by
  obtain ⟨hm, hi⟩ := decodeInsn_mem priv pc body imm dr
  simp only [hdr, Bool.false_eq_true, if_false] at hm hi
  simp only [decodeSeq, memInsn_ext, if_true]
  exact ⟨hm, hi⟩

/-- An extension word read as an instruction is a branch. -/
theorem e8Low_eq_branch :
    e8Low cond imm = immInsn 0 0 (cond ++ imm.extractLsb 7 4) (imm.extractLsb 3 0) := by
  apply BitVec.eq_of_getLsbD_eq
  intro i hi
  simp only [e8Low, immInsn, BitVec.getLsbD_append, BitVec.getLsbD_extractLsb]
  interval_cases i <;> simp

theorem decodeSeq_e8Low (hdr : dr.imflag = false) :
    (meaning (decodeSeq priv next pc dr [e8Low cond imm])).decoded = .br := by
  rw [e8Low_eq_branch, (decodeSeq_imm priv next pc _ _ _ hdr).1]
  rfl

end Sequences

/-! ## The meaning of a relaxed site -/

/-- Relaxing `s` for the value `v` removes some `n` bytes, and the bytes from offset `n` to its end
decode to what the site did, with the immediate at `v`, or at `v + n` if `v` is counted backwards
from the program counter. -/
def Site.Preserved (s : Site) (v : Int) (rest : Location) (priv : Bool) (next : Opcode) (pc : Word)
    (dr : DecodeRegs) : Prop :=
  ∃ rel n m, xtcRelaxRelocation s.reloc v (s.location rest) = some (rel, n, m) ∧
    meaning (decodeSeq priv next pc dr (m.halfwords n (s.halfwords.length - n / 2))) =
      meaning (decodeSeq priv next pc dr s.halfwords) ∧
    (decodeSeq priv next pc dr (m.halfwords n (s.halfwords.length - n / 2))).imreg =
      BitVec.ofInt 32 (valueAfter s.pcrel v n)

/-- An immediate instruction may always be relaxed.  A memory instruction may when its value keeps
the prefix, or keeps the extension and the prefix carried no condition. -/
def Site.Relaxable : Site → Int → Prop
  | .i8 .., _ => True
  | .e8 cond _ _, v => v < -128 ∨ 128 ≤ v ∨ v ≠ 0 ∧ opdecCondition cond = .unconditional

theorem xtcFitsImm_iff {v : Int} {k : Nat} (hk : k ≠ 0) :
    xtcFitsImm v k = true ↔ -2 ^ (k - 1) ≤ v ∧ v < 2 ^ (k - 1) := by
  simp [xtcFitsImm, hk]

theorem signExtend_of_fits {v : Int} {k : Nat} (hk : k ≠ 0) (h : xtcFitsImm v k = true) :
    (BitVec.ofInt k v).signExtend 32 = BitVec.ofInt 32 v := by
  obtain ⟨hlo, hhi⟩ := (xtcFitsImm_iff hk).mp h
  exact Bits.signExtend_ofInt 32 (by omega) hlo hhi

theorem Site.i8_preserved {pcrel : Bool} {cond : BitVec 4} {cls : BitVec 2} {imm : BitVec 8}
    {reg : BitVec 4} {v : Int} {rest : Location} {priv : Bool} {next : Opcode} {pc : Word}
    {dr : DecodeRegs} (hpc : pcrel → 0 ≤ v ∨ v ≤ -6) (hdr : dr.imflag = false) :
    (Site.i8 pcrel cond cls imm reg).Preserved v rest priv next pc dr := by
  have hold : meaning (decodeSeq priv next pc dr (Site.i8 pcrel cond cls imm reg).halfwords) =
      immMeaning priv cls reg (opdecCondition cond) :=
    (decodeSeq_e24_imm priv next pc cond reg cls imm 0 hdr).1
  by_cases h16 : xtcFitsImm (valueAfter pcrel v 2) 16 = true
  · by_cases hshort : cond = 0 ∧ xtcFitsImm (valueAfter pcrel v 4) 8 = true
    · obtain ⟨rel, m, hrun, hwords⟩ := relax_i8_short rest hpc h16 hshort.1 hshort.2
      refine ⟨rel, 4, m, hrun, ?_⟩
      obtain ⟨hm, hi⟩ := decodeSeq_imm priv next pc reg cls
        (BitVec.ofInt 8 (valueAfter pcrel v 4)) hdr
      rw [hold, show (Site.i8 pcrel cond cls imm reg).halfwords.length - 4 / 2 = 1 from rfl, hwords,
        hm, hi, hshort.1]
      exact ⟨rfl, signExtend_of_fits (by decide) hshort.2⟩
    · obtain ⟨rel, m, hrun, hwords⟩ := relax_i8_narrow rest hpc h16 hshort
      refine ⟨rel, 2, m, hrun, ?_⟩
      obtain ⟨hm, hi⟩ := decodeSeq_imm_ext priv next pc cond reg cls
        (BitVec.ofInt 8 (valueAfter pcrel v 2))
        (BitVec.ofInt 8 (valueAfter pcrel v 2 >>> (8 : Nat))) hdr
      rw [hold, show (Site.i8 pcrel cond cls imm reg).halfwords.length - 2 / 2 = 2 from rfl, hwords,
        hm, hi, Bits.ofInt_append]
      exact ⟨rfl, signExtend_of_fits (by decide) h16⟩
  · obtain ⟨rel, m, hrun, hwords⟩ := relax_i8_wide rest h16
    refine ⟨rel, 0, m, hrun, ?_⟩
    obtain ⟨hm, hi⟩ := decodeSeq_e24_imm priv next pc cond reg cls (BitVec.ofInt 8 v)
      (v >>> (8 : Nat)) hdr
    rw [hold, show (Site.i8 pcrel cond cls imm reg).halfwords.length - 0 / 2 = 3 from rfl, hwords,
      hm, hi]
    have hval : valueAfter pcrel v 0 = v := by simp [valueAfter]
    exact ⟨rfl, (Bits.ofInt_append 24 8 v).trans (congrArg _ hval.symm)⟩

theorem memMeaning_inj {priv : Bool} {body : BitVec 12} {c c' : Condition}
    (h : memMeaning priv body c = memMeaning priv body c') : c = c' :=
  congrArg Meaning.conditionClause h

theorem memMeaning_decoded_ne (priv : Bool) (body : BitVec 12) (c : Condition) :
    (memMeaning priv body c).decoded ≠ .br := by
  simp only [memMeaning]
  split <;> simp

theorem Site.e8_preserved_iff {cond : BitVec 4} {body : BitVec 12} {imm : BitVec 8} {v : Int}
    {rest : Location} {priv : Bool} {next : Opcode} {pc : Word} {dr : DecodeRegs}
    (hv : -2 ^ 31 ≤ v ∧ v < 2 ^ 31) (hdr : dr.imflag = false) :
    (Site.e8 cond body imm).Preserved v rest priv next pc dr ↔
      v < -128 ∨ 128 ≤ v ∨ v ≠ 0 ∧ opdecCondition cond = .unconditional := by
  have hold : meaning (decodeSeq priv next pc dr (Site.e8 cond body imm).halfwords) =
      memMeaning priv body (opdecCondition cond) :=
    (decodeSeq_e24_mem priv next pc cond imm body 0 hdr).1
  have hval : ∀ n, valueAfter (Site.e8 cond body imm).pcrel v n = v := by
    intro n
    simp [valueAfter, Site.pcrel]
  by_cases h8 : xtcFitsImm v 8 = true
  · have hrange := (xtcFitsImm_iff (by decide)).mp h8
    by_cases hz : v = 0
    · -- the instruction is gone and its extension word is left
      subst hz
      obtain ⟨rel, m, hrun, hwords⟩ := @relax_e8_zero cond body imm rest
      constructor
      · rintro ⟨rel', n', m', hrun', hm, -⟩
        rw [hrun] at hrun'
        obtain ⟨rfl, rfl, rfl⟩ : rel = rel' ∧ 6 = n' ∧ m = m' := by simpa using hrun'
        rw [hold, show (Site.e8 cond body imm).halfwords.length - 6 / 2 = 1 from rfl, hwords] at hm
        have hbr := decodeSeq_e8Low priv next pc 0 imm hdr
        rw [hm] at hbr
        exact absurd hbr (memMeaning_decoded_ne _ _ _)
      · omega
    · obtain ⟨rel, m, hrun, hwords⟩ := @relax_e8_narrow cond body imm v rest h8 hz
      obtain ⟨hm, hi⟩ := decodeSeq_mem priv next pc (BitVec.ofInt 8 v) body hdr
      constructor
      · rintro ⟨rel', n', m', hrun', hm', -⟩
        rw [hrun] at hrun'
        obtain ⟨rfl, rfl, rfl⟩ : rel = rel' ∧ 4 = n' ∧ m = m' := by simpa using hrun'
        rw [hold, show (Site.e8 cond body imm).halfwords.length - 4 / 2 = 2 from rfl, hwords,
          hm] at hm'
        exact .inr (.inr ⟨hz, (memMeaning_inj hm').symm⟩)
      · intro h
        have hcond : opdecCondition cond = .unconditional := by
          rcases h with h | h | h
          · omega
          · omega
          · exact h.2
        refine ⟨rel, 4, m, hrun, ?_⟩
        rw [hold, show (Site.e8 cond body imm).halfwords.length - 4 / 2 = 2 from rfl, hwords, hm,
          hi, hval, hcond]
        exact ⟨rfl, signExtend_of_fits (by decide) h8⟩
  · have hout : v < -128 ∨ 128 ≤ v := by
      rw [xtcFitsImm_iff (by decide)] at h8
      omega
    have h32 : xtcFitsImm v 32 = true := (xtcFitsImm_iff (by decide)).mpr hv
    refine iff_of_true ?_ (by omega)
    obtain ⟨rel, m, hrun, hwords⟩ := @relax_e8_wide cond body imm v rest h32 h8
    obtain ⟨hm, hi⟩ := decodeSeq_e24_mem priv next pc cond (BitVec.ofInt 8 v) body
      (v >>> (8 : Nat)) hdr
    refine ⟨rel, 0, m, hrun, ?_⟩
    rw [hold, show (Site.e8 cond body imm).halfwords.length - 0 / 2 = 4 from rfl, hwords, hm, hi,
      hval]
    exact ⟨rfl, Bits.ofInt_append 24 8 v⟩

/-- Relaxation keeps the meaning of a site exactly when the site is relaxable for the value. -/
theorem relax_preserves_iff (s : Site) (v : Int) (rest : Location) (priv : Bool) (next : Opcode)
    (pc : Word) (dr : DecodeRegs) (hv : -2 ^ 31 ≤ v ∧ v < 2 ^ 31)
    (hpc : s.pcrel = true → 0 ≤ v ∨ v ≤ -6) (hdr : dr.imflag = false) :
    s.Preserved v rest priv next pc dr ↔ s.Relaxable v := by
  cases s with
  | i8 pcrel cond cls imm reg => exact iff_of_true (Site.i8_preserved hpc hdr) trivial
  | e8 cond body imm => exact Site.e8_preserved_iff hv hdr

/-- A backward branch one page away, in the supervisor bank, straight out of reset. -/
theorem relax_preserves_branch :
    (Site.i8 true 1 0 0 0).Preserved (-4000) (fun _ => 0) true 0 0 decodeReset ↔
      (Site.i8 true 1 0 0 0).Relaxable (-4000) :=
  relax_preserves_iff (Site.i8 true 1 0 0 0) (-4000) (fun _ => 0) true 0 0 decodeReset
    (by decide) (fun _ => .inr (by decide)) rfl

/-- `ld r2, [r1 + 0]` with a zero displacement to relocate loses the load itself. -/
theorem relax_loses_load :
    ¬ ((-2 ^ 31 ≤ (0 : Int) ∧ (0 : Int) < 2 ^ 31) →
      ((Site.e8 0 0x821#12 0).pcrel = true → 0 ≤ (0 : Int) ∨ (0 : Int) ≤ -6) →
      decodeReset.imflag = false →
      (Site.e8 0 0x821#12 0).Preserved 0 (fun _ => 0) true 0 0 decodeReset) := by
  intro h
  have hpres := h (by decide) (fun _ => .inl le_rfl) rfl
  rw [Site.e8_preserved_iff (by decide) rfl] at hpres
  omega

end Xtc.Linker
