import Xtc.Linker.Site

/-!
# Rewrite — the words relaxation leaves at a site

The masks and byte moves of the source on the words of a site, and from them the outcome of
`xtc_relax_relocation` on each kind of site: how many bytes go, and which words remain.
-/

namespace Xtc.Linker

/-! ## Words under the masks of the source -/

theorem xtcGet16_halfword (h : Opcode) : h.extractLsb 15 8 ++ h.extractLsb 7 0 = h := by
  apply BitVec.eq_of_getLsbD_eq
  intro i hi
  simp only [BitVec.getLsbD_extractLsb, BitVec.getLsbD_append]
  interval_cases i <;> simp

section Words

variable (ext : BitVec 1) (cls : BitVec 2) (imm : BitVec 8) (reg cond : BitVec 4) (value : Int)

theorem immInsn_putImm8 : (immInsn ext cls imm reg &&& 0xF00F#16) |||
    ((BitVec.ofInt 16 value <<< 4) &&& 0xff0#16) = immInsn ext cls (BitVec.ofInt 8 value) reg := by
  apply BitVec.eq_of_getLsbD_eq
  intro i hi
  simp only [immInsn, BitVec.getLsbD_append, BitVec.getLsbD_or, BitVec.getLsbD_and,
    BitVec.getLsbD_shiftLeft, Bits.getLsbD_ofInt]
  interval_cases i <;> simp

theorem e8Low_putExt8 : (e8Low cond imm &&& 0xFF00#16) ||| (BitVec.ofInt 16 value &&& 0xff#16) =
    e8Low cond (BitVec.ofInt 8 value) := by
  apply BitVec.eq_of_getLsbD_eq
  intro i hi
  simp only [e8Low, BitVec.getLsbD_append, BitVec.getLsbD_or, BitVec.getLsbD_and,
    Bits.getLsbD_ofInt]
  interval_cases i <;> simp

/-- The bits that the mask of `xtc_emit_e24` leaves in place have to be set again: bits 30 to 28 of
the prefix hold bits 14 to 12 of the value, and bit 12 its bit 23. -/
def E24Over (old new : Int) : Prop :=
  ∀ k ∈ [12, 13, 14, 23],
    (BitVec.ofInt 24 old).getLsbD k = true → (BitVec.ofInt 24 new).getLsbD k = true

instance (old new : Int) : Decidable (E24Over old new) := by unfold E24Over; infer_instance

theorem e24Over_zero : E24Over 0 value := by
  intro k _ h
  simp at h

/-- `xtc_emit_e24` over a written prefix: four bits are only added to. -/
theorem getLsbD_e24Inst (old : Int) {i : Nat} (hi : i < 32) :
    (xtcE24Inst (e24High old ++ e24Low cond old) value).getLsbD i =
      ((e24High value ++ e24Low cond value).getLsbD i ||
        (decide (i ∈ [12, 28, 29, 30]) && (e24High old ++ e24Low cond old).getLsbD i)) := by
  simp only [xtcE24Inst, e24High, e24Low, BitVec.getLsbD_append, BitVec.getLsbD_or,
    BitVec.getLsbD_and, BitVec.getLsbD_shiftLeft, Bits.getLsbD_ofInt, BitVec.getLsbD_not]
  interval_cases i <;> simp [← Int.shiftRight_add, Bool.or_comm]

theorem getLsbD_e24_kept (cond : BitVec 4) (v : Int) :
    (e24High v ++ e24Low cond v).getLsbD 12 = (BitVec.ofInt 24 v).getLsbD 23 ∧
      (e24High v ++ e24Low cond v).getLsbD 28 = (BitVec.ofInt 24 v).getLsbD 12 ∧
      (e24High v ++ e24Low cond v).getLsbD 29 = (BitVec.ofInt 24 v).getLsbD 13 ∧
      (e24High v ++ e24Low cond v).getLsbD 30 = (BitVec.ofInt 24 v).getLsbD 14 := by
  simp only [e24High, e24Low, BitVec.getLsbD_append, Bits.getLsbD_ofInt]
  simp

theorem e24_inst_over (old : Int) : xtcE24Inst (e24High old ++ e24Low cond old) value =
    e24High value ++ e24Low cond value ↔ E24Over old value := by
  obtain ⟨o12, o28, o29, o30⟩ := getLsbD_e24_kept cond old
  obtain ⟨n12, n28, n29, n30⟩ := getLsbD_e24_kept cond value
  constructor
  · intro heq
    have hkeep : ∀ i < 32, i ∈ [12, 28, 29, 30] → (e24High old ++ e24Low cond old).getLsbD i →
        (e24High value ++ e24Low cond value).getLsbD i := by
      intro i hi hmem hset
      have hbit := getLsbD_e24Inst cond value old hi
      rw [heq, decide_eq_true hmem, hset] at hbit
      simpa using hbit
    simp only [E24Over, List.forall_mem_cons, List.not_mem_nil, false_imp_iff, implies_true,
      and_true]
    rw [← o12, ← o28, ← o29, ← o30, ← n12, ← n28, ← n29, ← n30]
    exact ⟨hkeep 28 (by decide) (by decide), hkeep 29 (by decide) (by decide),
      hkeep 30 (by decide) (by decide), hkeep 12 (by decide) (by decide)⟩
  · intro hover
    simp only [E24Over, List.forall_mem_cons, List.not_mem_nil, false_imp_iff, implies_true,
      and_true] at hover
    rw [← o12, ← o28, ← o29, ← o30, ← n12, ← n28, ← n29, ← n30] at hover
    apply BitVec.eq_of_getLsbD_eq
    intro i hi
    rw [getLsbD_e24Inst cond value old hi]
    by_cases hmem : i ∈ [12, 28, 29, 30]
    · have hset : (e24High old ++ e24Low cond old).getLsbD i = true →
          (e24High value ++ e24Low cond value).getLsbD i = true := by
        simp only [List.mem_cons, List.not_mem_nil, or_false] at hmem
        obtain rfl | rfl | rfl | rfl := hmem
        exacts [hover.2.2.2, hover.1, hover.2.1, hover.2.2.1]
      cases hb : (e24High old ++ e24Low cond old).getLsbD i
      · simp
      · simp [hset hb]
    · simp [hmem]

theorem immInsn_setExt : ((immInsn 0 cls imm reg).extractLsb 15 8 ||| 0x80#8) ++
    (immInsn 0 cls imm reg).extractLsb 7 0 = immInsn 1 cls imm reg := by
  apply BitVec.eq_of_getLsbD_eq
  intro i hi
  simp only [immInsn, BitVec.getLsbD_append, BitVec.getLsbD_or, BitVec.getLsbD_extractLsb]
  interval_cases i <;> simp

theorem immInsn_clearExt : ((immInsn 1 cls imm reg).extractLsb 15 8 &&& 0x7f#8) ++
    (immInsn 1 cls imm reg).extractLsb 7 0 = immInsn 0 cls imm reg := by
  apply BitVec.eq_of_getLsbD_eq
  intro i hi
  simp only [immInsn, BitVec.getLsbD_append, BitVec.getLsbD_and, BitVec.getLsbD_extractLsb]
  interval_cases i <;> simp

theorem e24Low_toE8 : (((e24Low cond value).extractLsb 15 8 &&& 0xf#8) ||| 0x40#8) ++ 0#8 =
    e8Low cond 0 := by
  apply BitVec.eq_of_getLsbD_eq
  intro i hi
  simp only [e24Low, e8Low, BitVec.getLsbD_append, BitVec.getLsbD_and, BitVec.getLsbD_or,
    BitVec.getLsbD_extractLsb]
  interval_cases i <;> simp

theorem e8Low_removable : (e8Low cond imm &&& 0x2f00#16 == 0#16) = (cond == 0#4) := by
  rw [Bool.eq_iff_iff]
  simp only [beq_iff_eq]
  constructor
  · intro h
    apply BitVec.eq_of_getLsbD_eq
    intro i hi
    have hb := congrArg (BitVec.getLsbD · (i + 8)) h
    simp only [e8Low, BitVec.getLsbD_append, BitVec.getLsbD_and] at hb
    interval_cases i <;> simpa using hb
  · rintro rfl
    apply BitVec.eq_of_getLsbD_eq
    intro i hi
    simp only [e8Low, BitVec.getLsbD_append, BitVec.getLsbD_and]
    interval_cases i <;> simp

end Words

/-! ## Reading back what was written -/

section Memory

variable {m : Location} {d e : Nat}

theorem xtcGet16_high : (xtcGet16 m d).extractLsb 15 8 = m d := by
  apply BitVec.eq_of_getLsbD_eq
  intro i hi
  simp only [xtcGet16, BitVec.getLsbD_append, BitVec.getLsbD_extractLsb]
  interval_cases i <;> simp

theorem xtcGet16_low : (xtcGet16 m d).extractLsb 7 0 = m (d + 1) := Bits.extractLsb'_low _ _

theorem xtcGet16_put16 (x : BitVec 16) : xtcGet16 (xtcPut16 x m d) d = x := by
  have h : xtcGet16 (xtcPut16 x m d) d = x.extractLsb 15 8 ++ x.extractLsb 7 0 := by
    simp [xtcGet16, xtcPut16, Location.set]
  rw [h, xtcGet16_halfword]

theorem xtcGet16_put16_frame (x : BitVec 16) (h : d + 1 < e ∨ e + 1 < d) :
    xtcGet16 (xtcPut16 x m d) e = xtcGet16 m e := by
  simp only [xtcGet16, xtcPut16, Location.set]
  rw [if_neg (by omega), if_neg (by omega), if_neg (by omega), if_neg (by omega)]

/-- What `xtc_emit_e24` leaves at a prefix that holds another value. -/
theorem xtcGet16_emitE24_over {cond : BitVec 4} {old : Int} (v : Int)
    (hhi : xtcGet16 m d = e24High old) (hlo : xtcGet16 m (d + 2) = e24Low cond old) :
    (xtcGet16 (xtcEmitE24 m d v) d = e24High v ∧
      xtcGet16 (xtcEmitE24 m d v) (d + 2) = e24Low cond v) ↔ E24Over old v := by
  have hget : xtcGet16 (xtcEmitE24 m d v) d = (xtcE24Inst (xtcGet32 m d) v).extractLsb 31 16 ∧
      xtcGet16 (xtcEmitE24 m d v) (d + 2) = (xtcE24Inst (xtcGet32 m d) v).extractLsb 15 0 := by
    simp only [xtcGet16, xtcEmitE24, Location.set]
    constructor
    · simpa [BitVec.extractLsb] using Bits.extractLsb'_join (xtcE24Inst (xtcGet32 m d) v) 16 8 8
    · simpa [BitVec.extractLsb] using Bits.extractLsb'_join (xtcE24Inst (xtcGet32 m d) v) 0 8 8
  rw [hget.1, hget.2, xtcGet32, hhi, hlo, ← e24_inst_over cond v old]
  constructor
  · rintro ⟨h, h'⟩
    rw [← h, ← h']
    exact ((Bits.extractLsb'_join _ 0 16 16).trans BitVec.extractLsb'_eq_self).symm
  · intro h
    rw [h]
    exact ⟨Bits.extractLsb'_high _ _, Bits.extractLsb'_low _ _⟩

theorem xtcGet16_emitE24 {cond : BitVec 4} (v : Int) (hhi : xtcGet16 m d = e24High 0)
    (hlo : xtcGet16 m (d + 2) = e24Low cond 0) :
    xtcGet16 (xtcEmitE24 m d v) d = e24High v ∧
    xtcGet16 (xtcEmitE24 m d v) (d + 2) = e24Low cond v :=
  (xtcGet16_emitE24_over v hhi hlo).mpr (e24Over_zero v)

theorem xtcGet16_emitE24_frame (v : Int) (h : d + 3 < e) :
    xtcGet16 (xtcEmitE24 m d v) e = xtcGet16 m e := by
  simp only [xtcGet16, xtcEmitE24, Location.set]
  repeat rw [if_neg (by omega)]

theorem xtcGet16_putImm8 {ext : BitVec 1} {cls : BitVec 2} {imm : BitVec 8} {reg : BitVec 4}
    (v : Int) (h : xtcGet16 m d = immInsn ext cls imm reg) :
    xtcGet16 (xtcPutImm8 m d v) d = immInsn ext cls (BitVec.ofInt 8 v) reg := by
  rw [xtcPutImm8, xtcGet16_put16, h, immInsn_putImm8]

theorem xtcGet16_putExt8 {cond : BitVec 4} {imm : BitVec 8} (v : Int)
    (h : xtcGet16 m d = e8Low cond imm) :
    xtcGet16 (xtcPutExt8 m d v) d = e8Low cond (BitVec.ofInt 8 v) := by
  rw [xtcPutExt8, xtcGet16_put16, h, e8Low_putExt8]

theorem xtcGet16_relaxE24I8 {cond : BitVec 4} {cls : BitVec 2} {imm : BitVec 8} {reg : BitVec 4}
    {v : Int} (hlo : xtcGet16 m (d + 2) = e24Low cond v)
    (hinsn : xtcGet16 m (d + 4) = immInsn 0 cls imm reg) :
    xtcGet16 (xtcRelaxE24I8ToE8I8 m d) (d + 2) = immInsn 1 cls imm reg ∧
    xtcGet16 (xtcRelaxE24I8ToE8I8 m d) (d + 4) = e8Low cond 0 := by
  have h4 : m (d + 4) = (immInsn 0 cls imm reg).extractLsb 15 8 := by rw [← hinsn, xtcGet16_high]
  have h5 : m (d + 5) = (immInsn 0 cls imm reg).extractLsb 7 0 := by rw [← hinsn, xtcGet16_low]
  have h2 : m (d + 2) = (e24Low cond v).extractLsb 15 8 := by rw [← hlo, xtcGet16_high]
  constructor
  · rw [← immInsn_setExt, ← h4, ← h5]
    simp [xtcGet16, xtcRelaxE24I8ToE8I8, Location.set]
  · rw [← e24Low_toE8 cond v, ← h2]
    simp [xtcGet16, xtcRelaxE24I8ToE8I8, Location.set]

theorem xtcGet16_relaxE8I8 {cls : BitVec 2} {imm : BitVec 8} {reg : BitVec 4}
    (hinsn : xtcGet16 m d = immInsn 1 cls imm reg) :
    xtcGet16 (xtcRelaxE8I8ToI8 m d) (d + 2) = immInsn 0 cls imm reg := by
  have h0 : m d = (immInsn 1 cls imm reg).extractLsb 15 8 := by rw [← hinsn, xtcGet16_high]
  have h1 : m (d + 1) = (immInsn 1 cls imm reg).extractLsb 7 0 := by rw [← hinsn, xtcGet16_low]
  rw [← immInsn_clearExt, ← h0, ← h1]
  simp [xtcGet16, xtcRelaxE8I8ToI8, Location.set]

end Memory

theorem Site.get16_location (s : Site) (rest : Location) (k : Nat) {h : Opcode}
    (hk : s.halfwords[k]? = some h) : xtcGet16 (s.location rest) (2 * k) = h := by
  have h0 : 2 * k / 2 = k := by omega
  have h1 : (2 * k + 1) / 2 = k := by omega
  have hmod : (2 * k + 1) % 2 = 1 := by omega
  simp only [xtcGet16, Site.location, h0, h1, hk, hmod, Nat.mul_mod_right, if_true]
  exact xtcGet16_halfword h

/-! ## The retry loop on a site -/

theorem relaxLoop_stop {s : Relaxation} (h : relaxRound s = some none) : relaxLoop s = some s := by
  rw [relaxLoop]
  split <;> simp_all

theorem relaxLoop_retry {s s' : Relaxation} (h : relaxRound s = some (some s')) :
    relaxLoop s = relaxLoop s' := by
  rw [relaxLoop]
  split <;> simp_all

theorem xtcRelaxRelocation_of_loop {rel : Reloc} {v : Int} {m : Location} {s : Relaxation}
    (h : relaxLoop ⟨rel, v, 0, m⟩ = some s) :
    xtcRelaxRelocation rel v m =
      some (s.rel, s.bytes, (xtcEmitRelocation s.rel s.value s.mem s.bytes).getD s.mem) := by
  simp [xtcRelaxRelocation, h]

/-- The value left at a site when `n` bytes have been removed from it. -/
def valueAfter (pcrel : Bool) (v : Int) (n : Nat) : Int :=
  if pcrel ∧ v < 0 then v + n else v

section Rounds

variable {pcrel : Bool} {v : Int} (m : Location)

theorem relaxRound_e24I8 :
    relaxRound ⟨bif pcrel then .e24I8R else .e24I8, v, 0, m⟩ =
      some (if xtcFitsImm (valueAfter pcrel v 2) 16 then
        some ⟨bif pcrel then .e8I8R else .e8I8, valueAfter pcrel v 2, 2, xtcRelaxE24I8ToE8I8 m 0⟩
        else none) := by
  cases pcrel <;>
    simp [relaxRound, newRelocIf, pcrelAdjust, xtcRelocPcrel, xtcAdjustedRel, valueAfter]

theorem relaxRound_e8I8 (hv : pcrel → 0 ≤ v ∨ v ≤ -6) :
    relaxRound ⟨bif pcrel then .e8I8R else .e8I8, valueAfter pcrel v 2, 2, m⟩ =
      some (if xtcCanRemoveExtension m 2 ∧ xtcFitsImm (valueAfter pcrel v 4) 8 then
        some ⟨bif pcrel then .i8R else .i8, valueAfter pcrel v 4, 4, xtcRelaxE8I8ToI8 m 2⟩
        else none) := by
  have hadj : pcrel = true → xtcAdjustedRel (valueAfter pcrel v 2) 2 = valueAfter pcrel v 4 := by
    intro hp
    have := hv hp
    by_cases hneg : v < 0
    · simp [xtcAdjustedRel, valueAfter, hp, hneg, show v + 2 < 0 by omega]
      omega
    · simp [xtcAdjustedRel, valueAfter, hneg]
  cases pcrel
  · simp [relaxRound, newRelocIf, pcrelAdjust, xtcRelocPcrel, xtcAdjustedRel, valueAfter, ite_and]
  · simp [relaxRound, newRelocIf, pcrelAdjust, xtcRelocPcrel, hadj, ite_and]

theorem relaxRound_i8 (m : Location) (n : Nat) :
    relaxRound ⟨bif pcrel then .i8R else .i8, v, n, m⟩ = some none := by
  cases pcrel <;> rfl

theorem relaxRound_e24E8 :
    relaxRound ⟨.e24E8, v, 0, m⟩ =
      some (if xtcFitsImm v 8 then some ⟨.e8, v, 4, m⟩ else none) := by
  simp [relaxRound, newRelocIf, pcrelAdjust, xtcRelocPcrel, xtcAdjustedRel]

theorem relaxRound_e8 :
    relaxRound ⟨.e8, v, 4, m⟩ =
      some (if xtcCanRemoveExtension m 4 ∧ v = 0 then
        some ⟨.none, v, 6, xtcRelaxE8ToNone m 4⟩ else none) := by
  simp [relaxRound, newRelocIf, pcrelAdjust, xtcRelocPcrel, xtcAdjustedRel, xtcFitsImm, ite_and]

end Rounds

section I8

variable {pcrel : Bool} {cond : BitVec 4} {cls : BitVec 2} {imm : BitVec 8} {reg : BitVec 4}
  {v : Int} (rest : Location)

theorem Site.reloc_i8 :
    (Site.i8 pcrel cond cls imm reg).reloc = bif pcrel then .e24I8R else .e24I8 := by
  cases pcrel <;> rfl

theorem relax_i8_wide (h : ¬ xtcFitsImm (valueAfter pcrel v 2) 16) :
    ∃ rel m, xtcRelaxRelocation (Site.i8 pcrel cond cls imm reg).reloc v
        ((Site.i8 pcrel cond cls imm reg).location rest) = some (rel, 0, m) ∧
      m.halfwords 0 3 = [e24High (v >>> (8 : Nat)), e24Low cond (v >>> (8 : Nat)),
        immInsn 0 cls (BitVec.ofInt 8 v) reg] := by
  set m := (Site.i8 pcrel cond cls imm reg).location rest
  have h0 : xtcGet16 m 0 = e24High 0 := Site.get16_location _ rest 0 rfl
  have h2 : xtcGet16 m 2 = e24Low cond 0 := Site.get16_location _ rest 1 rfl
  have h4 : xtcGet16 m 4 = immInsn 0 cls imm reg := Site.get16_location _ rest 2 rfl
  have hstop := relaxLoop_stop (s := ⟨bif pcrel then .e24I8R else .e24I8, v, 0, m⟩)
    (by rw [relaxRound_e24I8, if_neg h])
  rw [Site.reloc_i8]
  refine ⟨_, _, xtcRelaxRelocation_of_loop hstop, ?_⟩
  have hemit : (xtcEmitRelocation (bif pcrel then .e24I8R else .e24I8) v m 0).getD m =
      xtcPutImm8 (xtcEmitE24 m 0 (v >>> (8 : Nat))) 4 v := by
    cases pcrel <;> rfl
  obtain ⟨hhi, hlo⟩ := xtcGet16_emitE24 (v >>> (8 : Nat)) h0 h2
  have hinsn : xtcGet16 (xtcEmitE24 m 0 (v >>> (8 : Nat))) 4 = immInsn 0 cls imm reg := by
    rw [xtcGet16_emitE24_frame _ (by omega), h4]
  rw [hemit]
  simp only [Location.halfwords, xtcGet16_putImm8 v hinsn]
  rw [xtcPutImm8, xtcGet16_put16_frame _ (by omega), xtcGet16_put16_frame _ (by omega), hhi, hlo]

theorem relax_i8_narrow (hv : pcrel → 0 ≤ v ∨ v ≤ -6) (h : xtcFitsImm (valueAfter pcrel v 2) 16)
    (hstay : ¬(cond = 0 ∧ xtcFitsImm (valueAfter pcrel v 4) 8)) :
    ∃ rel m, xtcRelaxRelocation (Site.i8 pcrel cond cls imm reg).reloc v
        ((Site.i8 pcrel cond cls imm reg).location rest) = some (rel, 2, m) ∧
      m.halfwords 2 2 = [immInsn 1 cls (BitVec.ofInt 8 (valueAfter pcrel v 2)) reg,
        e8Low cond (BitVec.ofInt 8 (valueAfter pcrel v 2 >>> (8 : Nat)))] := by
  set m := (Site.i8 pcrel cond cls imm reg).location rest
  have h2 : xtcGet16 m 2 = e24Low cond 0 := Site.get16_location _ rest 1 rfl
  have h4 : xtcGet16 m 4 = immInsn 0 cls imm reg := Site.get16_location _ rest 2 rfl
  obtain ⟨hinsn, hext⟩ := xtcGet16_relaxE24I8 (d := 0) h2 h4
  have hrm : xtcCanRemoveExtension (xtcRelaxE24I8ToE8I8 m 0) 2 = (cond == 0#4) := by
    rw [xtcCanRemoveExtension, hext, e8Low_removable]
  have hloop : relaxLoop ⟨bif pcrel then .e24I8R else .e24I8, v, 0, m⟩ = some
      ⟨bif pcrel then .e8I8R else .e8I8, valueAfter pcrel v 2, 2, xtcRelaxE24I8ToE8I8 m 0⟩ := by
    rw [relaxLoop_retry (by rw [relaxRound_e24I8, if_pos h]), relaxLoop_stop]
    rw [relaxRound_e8I8 _ hv, hrm, if_neg (by simpa using hstay)]
  rw [Site.reloc_i8]
  refine ⟨_, _, xtcRelaxRelocation_of_loop hloop, ?_⟩
  set t := valueAfter pcrel v 2
  set m' := xtcRelaxE24I8ToE8I8 m 0
  have hemit : (xtcEmitRelocation (bif pcrel then .e8I8R else .e8I8) t m' 2).getD m' =
      xtcPutExt8 (xtcPutImm8 m' 2 t) 4 (t >>> (8 : Nat)) := by
    cases pcrel <;> simp [xtcEmitRelocation, h]
  have hext' : xtcGet16 (xtcPutImm8 m' 2 t) 4 = e8Low cond 0 := by
    rw [xtcPutImm8, xtcGet16_put16_frame _ (by omega), hext]
  have hinsn' := xtcGet16_putImm8 t hinsn
  rw [hemit]
  simp only [Location.halfwords, xtcGet16_putExt8 (t >>> (8 : Nat)) hext']
  rw [xtcPutExt8, xtcGet16_put16_frame _ (by omega), hinsn']

theorem relax_i8_short (hv : pcrel → 0 ≤ v ∨ v ≤ -6) (h : xtcFitsImm (valueAfter pcrel v 2) 16)
    (hcond : cond = 0) (hshort : xtcFitsImm (valueAfter pcrel v 4) 8) :
    ∃ rel m, xtcRelaxRelocation (Site.i8 pcrel cond cls imm reg).reloc v
        ((Site.i8 pcrel cond cls imm reg).location rest) = some (rel, 4, m) ∧
      m.halfwords 4 1 = [immInsn 0 cls (BitVec.ofInt 8 (valueAfter pcrel v 4)) reg] := by
  set m := (Site.i8 pcrel cond cls imm reg).location rest
  have h2 : xtcGet16 m 2 = e24Low cond 0 := Site.get16_location _ rest 1 rfl
  have h4 : xtcGet16 m 4 = immInsn 0 cls imm reg := Site.get16_location _ rest 2 rfl
  obtain ⟨hinsn, hext⟩ := xtcGet16_relaxE24I8 (d := 0) h2 h4
  have hrm : xtcCanRemoveExtension (xtcRelaxE24I8ToE8I8 m 0) 2 = (cond == 0#4) := by
    rw [xtcCanRemoveExtension, hext, e8Low_removable]
  set m' := xtcRelaxE24I8ToE8I8 m 0
  have hloop : relaxLoop ⟨bif pcrel then .e24I8R else .e24I8, v, 0, m⟩ = some
      ⟨bif pcrel then .i8R else .i8, valueAfter pcrel v 4, 4, xtcRelaxE8I8ToI8 m' 2⟩ := by
    rw [relaxLoop_retry (by rw [relaxRound_e24I8, if_pos h]),
      relaxLoop_retry (by rw [relaxRound_e8I8 _ hv, hrm, if_pos (by simp [hcond, hshort])]),
      relaxLoop_stop (relaxRound_i8 _ _)]
  rw [Site.reloc_i8]
  refine ⟨_, _, xtcRelaxRelocation_of_loop hloop, ?_⟩
  have hemit : (xtcEmitRelocation (bif pcrel then .i8R else .i8) (valueAfter pcrel v 4)
      (xtcRelaxE8I8ToI8 m' 2) 4).getD (xtcRelaxE8I8ToI8 m' 2) =
      xtcPutImm8 (xtcRelaxE8I8ToI8 m' 2) 4 (valueAfter pcrel v 4) := by
    cases pcrel <;> simp [xtcEmitRelocation, hshort]
  rw [hemit, Location.halfwords, xtcGet16_putImm8 _ (xtcGet16_relaxE8I8 hinsn), Location.halfwords]

end I8

section E8

variable {cond : BitVec 4} {body : BitVec 12} {imm : BitVec 8} {v : Int} (rest : Location)

theorem relax_e8_wide (h32 : xtcFitsImm v 32) (h : ¬ xtcFitsImm v 8) :
    ∃ rel m, xtcRelaxRelocation (Site.e8 cond body imm).reloc v
        ((Site.e8 cond body imm).location rest) = some (rel, 0, m) ∧
      m.halfwords 0 4 = [e24High (v >>> (8 : Nat)), e24Low cond (v >>> (8 : Nat)), memInsn body,
        e8Low 0 (BitVec.ofInt 8 v)] := by
  set m := (Site.e8 cond body imm).location rest
  have h0 : xtcGet16 m 0 = e24High 0 := Site.get16_location _ rest 0 rfl
  have h2 : xtcGet16 m 2 = e24Low cond 0 := Site.get16_location _ rest 1 rfl
  have h4 : xtcGet16 m 4 = memInsn body := Site.get16_location _ rest 2 rfl
  have h6 : xtcGet16 m 6 = e8Low 0 imm := Site.get16_location _ rest 3 rfl
  have hstop := relaxLoop_stop (s := ⟨.e24E8, v, 0, m⟩) (by rw [relaxRound_e24E8, if_neg h])
  refine ⟨_, _, xtcRelaxRelocation_of_loop hstop, ?_⟩
  have hemit : (xtcEmitRelocation .e24E8 v m 0).getD m =
      xtcPutExt8 (xtcEmitE24 m 0 (v >>> (8 : Nat))) 6 v := by
    simp [xtcEmitRelocation, h32]
  obtain ⟨hhi, hlo⟩ := xtcGet16_emitE24 (v >>> (8 : Nat)) h0 h2
  have hext : xtcGet16 (xtcEmitE24 m 0 (v >>> (8 : Nat))) 6 = e8Low 0 imm := by
    rw [xtcGet16_emitE24_frame _ (by omega), h6]
  rw [hemit]
  simp only [Location.halfwords, xtcGet16_putExt8 v hext]
  rw [xtcPutExt8, xtcGet16_put16_frame _ (by omega), xtcGet16_put16_frame _ (by omega),
    xtcGet16_put16_frame _ (by omega), hhi, hlo, xtcGet16_emitE24_frame _ (by omega), h4]

theorem relax_e8_narrow (h : xtcFitsImm v 8) (hv : v ≠ 0) :
    ∃ rel m, xtcRelaxRelocation (Site.e8 cond body imm).reloc v
        ((Site.e8 cond body imm).location rest) = some (rel, 4, m) ∧
      m.halfwords 4 2 = [memInsn body, e8Low 0 (BitVec.ofInt 8 v)] := by
  set m := (Site.e8 cond body imm).location rest
  have h4 : xtcGet16 m 4 = memInsn body := Site.get16_location _ rest 2 rfl
  have h6 : xtcGet16 m 6 = e8Low 0 imm := Site.get16_location _ rest 3 rfl
  have hloop : relaxLoop ⟨.e24E8, v, 0, m⟩ = some ⟨.e8, v, 4, m⟩ := by
    rw [relaxLoop_retry (by rw [relaxRound_e24E8, if_pos h]), relaxLoop_stop]
    rw [relaxRound_e8, if_neg (fun hz => hv hz.2)]
  refine ⟨_, _, xtcRelaxRelocation_of_loop hloop, ?_⟩
  have hemit : (xtcEmitRelocation .e8 v m 4).getD m = xtcPutExt8 m 6 v := by
    simp [xtcEmitRelocation, h]
  rw [hemit]
  simp only [Location.halfwords, xtcGet16_putExt8 v h6]
  rw [xtcPutExt8, xtcGet16_put16_frame _ (by omega), h4]

/-- A zero value takes the extension word for the instruction: what is kept is the extension. -/
theorem relax_e8_zero :
    ∃ rel m, xtcRelaxRelocation (Site.e8 cond body imm).reloc 0
        ((Site.e8 cond body imm).location rest) = some (rel, 6, m) ∧
      m.halfwords 6 1 = [e8Low 0 imm] := by
  set m := (Site.e8 cond body imm).location rest
  have h6 : xtcGet16 m 6 = e8Low 0 imm := Site.get16_location _ rest 3 rfl
  have hrm : xtcCanRemoveExtension m 4 = true := by
    rw [xtcCanRemoveExtension, h6, e8Low_removable]
    rfl
  have hloop : relaxLoop ⟨.e24E8, 0, 0, m⟩ = some ⟨.none, 0, 6, xtcRelaxE8ToNone m 4⟩ := by
    have hfits : xtcFitsImm 0 8 = true := by decide
    rw [relaxLoop_retry (by rw [relaxRound_e24E8, if_pos hfits]),
      relaxLoop_retry (by rw [relaxRound_e8, if_pos ⟨hrm, rfl⟩]),
      relaxLoop_stop (s := ⟨.none, 0, 6, xtcRelaxE8ToNone m 4⟩) rfl]
  refine ⟨_, _, xtcRelaxRelocation_of_loop hloop, ?_⟩
  have hframe : xtcGet16 (xtcRelaxE8ToNone m 4) 6 = xtcGet16 m 6 := by
    simp [xtcGet16, xtcRelaxE8ToNone, Location.set]
  have hemit : (xtcEmitRelocation .none 0 (xtcRelaxE8ToNone m 4) 6).getD
      (xtcRelaxE8ToNone m 4) = xtcRelaxE8ToNone m 4 := rfl
  rw [hemit]
  simp only [Location.halfwords, hframe, h6]

end E8

end Xtc.Linker
