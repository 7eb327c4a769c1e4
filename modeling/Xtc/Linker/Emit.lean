import Xtc.Linker.Preserve

/-!
# Emit — a relocated site and the immediate the decoder reads from it

`xtc_emit_relocation` writes a value into the immediate fields of a site; the decoder gathers the
fields of the same words into `imreg`.  For each form the words of the site are a function of the
value, so that what the linker leaves and what the decoder reads are compared on that function.
-/

namespace Xtc.Linker

/-! ## Emission in place -/

/-- `xtc_emit_relocation` as it acts on the section: the value it returns, and the contents after
its writes. -/
def xtcEmitRelocationAt (rel : Reloc) (value : Int) (dest : Nat) : StateM Location Int :=
  match rel with
  | .e24E8R | .e24E8 => do
      if !xtcFitsImm value 32 then return -1
      modify fun m => xtcEmitE24 m dest (value >>> (8 : Nat))
      modify fun m => xtcPutExt8 m (dest + 4 + 2) value
      return 0
  | .e24I8R | .e24I8 => do
      modify fun m => xtcEmitE24 m dest (value >>> (8 : Nat))
      modify fun m => xtcPutImm8 m (dest + 4) value
      return 0
  | .e24R | .e24 => do
      if !xtcFitsImm value 24 then return -1
      modify fun m => xtcEmitE24 m dest value
      return 0
  | .e8R | .e8 => do
      if !xtcFitsImm value 8 then return -1
      modify fun m => xtcPutExt8 m (dest + 2) value
      return 0
  | .e8I8R | .e8I8 => do
      if !xtcFitsImm value 16 then return -1
      modify fun m => xtcPutImm8 m dest value
      modify fun m => xtcPutExt8 m (dest + 2) (value >>> (8 : Nat))
      return 0
  | .i8R | .i8 => do
      if !xtcFitsImm value 8 then return -1
      modify fun m => xtcPutImm8 m dest value
      return 0
  | _ => return 0

/-- Every check stands before the first write. -/
theorem xtcEmitRelocationAt_run (rel : Reloc) (value : Int) (dest : Nat) (m : Location) :
    (xtcEmitRelocationAt rel value dest).run m =
      match xtcEmitRelocation rel value m dest with
      | none => (-1, m)
      | some m' => (0, m') := by
  cases rel <;> simp only [xtcEmitRelocationAt, xtcEmitRelocation] <;> try rfl
  all_goals split <;> rfl

/-! ## Templates -/

/-- An extended instruction whose class has no immediate of its own. -/
def wideInsn (body : BitVec 14) : Opcode := 0b10#2 ++ body

/-- The instruction words of each form, with every field but the immediate ones. -/
inductive Template
  | i8 (cls : BitVec 2) (reg : BitVec 4)
  | e8 (body : BitVec 14) (cond : BitVec 4)
  | e8I8 (cls : BitVec 2) (reg cond : BitVec 4)
  | e24 (cond : BitVec 4)
  | e24I8 (prefixCond : BitVec 4) (cls : BitVec 2) (reg : BitVec 4)
  | e24E8 (prefixCond : BitVec 4) (body : BitVec 14) (cond : BitVec 4)

namespace Template

def halfwords (value : Int) : Template → List Opcode
  | i8 cls reg => [immInsn 0 cls (BitVec.ofInt 8 value) reg]
  | e8 body cond => [wideInsn body, e8Low cond (BitVec.ofInt 8 value)]
  | e8I8 cls reg cond =>
      [immInsn 1 cls (BitVec.ofInt 8 value) reg,
        e8Low cond (BitVec.ofInt 8 (value >>> (8 : Nat)))]
  | e24 cond => [e24High value, e24Low cond value]
  | e24I8 prefixCond cls reg =>
      [e24High (value >>> (8 : Nat)), e24Low prefixCond (value >>> (8 : Nat)),
        immInsn 0 cls (BitVec.ofInt 8 value) reg]
  | e24E8 prefixCond body cond =>
      [e24High (value >>> (8 : Nat)), e24Low prefixCond (value >>> (8 : Nat)), wideInsn body,
        e8Low cond (BitVec.ofInt 8 value)]

def immMask : Template → List Opcode
  | i8 .. => [0x0FF0#16]
  | e8 .. => [0x0000#16, 0x00FF#16]
  | e8I8 .. => [0x0FF0#16, 0x00FF#16]
  | e24 .. => [0x7FFF#16, 0x10FF#16]
  | e24I8 .. => [0x7FFF#16, 0x10FF#16, 0x0FF0#16]
  | e24E8 .. => [0x7FFF#16, 0x10FF#16, 0x0000#16, 0x00FF#16]

def size (t : Template) : Nat := t.immMask.length

def reloc (pcrel : Bool) : Template → Reloc
  | i8 .. => bif pcrel then .i8R else .i8
  | e8 .. => bif pcrel then .e8R else .e8
  | e8I8 .. => bif pcrel then .e8I8R else .e8I8
  | e24 .. => bif pcrel then .e24R else .e24
  | e24I8 .. => bif pcrel then .e24I8R else .e24I8
  | e24E8 .. => bif pcrel then .e24E8R else .e24E8

def width : Template → Nat
  | i8 .. | e8 .. => 8
  | e8I8 .. => 16
  | e24 .. => 24
  | e24I8 .. | e24E8 .. => 32

def checked : Template → Bool
  | e24I8 .. => false
  | _ => true

/-- The immediate that stands for `value`: a bare prefix holds 24 bits of it. -/
def immediate (value : Int) : Template → Word
  | e24 .. => (BitVec.ofInt 24 value).signExtend 32
  | _ => BitVec.ofInt 32 value

end Template

def fixedBits (words masks : List Opcode) : List Opcode :=
  List.zipWith (fun word mask => word &&& ~~~mask) words masks

/-! ## What the decoder reads -/

section Decoder

theorem wideInsn_ext (body : BitVec 14) : (wideInsn body).getLsbD 15 = true := by
  simp only [wideInsn, BitVec.getLsbD_append]
  simp

theorem wideInsn_class (body : BitVec 14) : ((wideInsn body).extractLsb 14 12).toNat < 4 := by
  have htop : (wideInsn body).extractLsb 14 12 = 0#1 ++ body.extractLsb 13 12 := by
    apply BitVec.eq_of_getLsbD_eq
    intro i hi
    simp only [wideInsn, BitVec.getLsbD_extractLsb, BitVec.getLsbD_append]
    interval_cases i <;> simp
  have hlt := (body.extractLsb 13 12).isLt
  rw [htop, BitVec.toNat_append]
  simpa using hlt

/-- An instruction of the other classes takes the low byte of its extension word. -/
theorem decodeInsn_wide (priv : Bool) (pc : Word) (body : BitVec 14) (cond : BitVec 4)
    (imm : BitVec 8) (dr : DecodeRegs) :
    (decodeInsn priv pc (wideInsn body) (e8Low cond imm) dr).imreg =
      if dr.imflag then dr.imreg.extractLsb 23 0 ++ imm else imm.signExtend 32 := by
  have hop : opdecOp (wideInsn body) (e8Low cond imm) = opdecClass (wideInsn body) := by
    simp [opdecOp, e8Low_load]
  set f := (opdecAluOp (wideInsn body)).2
  set d := opdecDefaults (wideInsn body) (e8Low cond imm) priv
  have hkept := opdecCase_sameWords (opdecClass (wideInsn body)) priv f d
  have hdec : (opdec (wideInsn body) (e8Low cond imm) priv).loadimm = .load8 ∧
      (opdec (wideInsn body) (e8Low cond imm) priv).imm8l = imm := by
    have hext' : (opdecCase (opdecClass (wideInsn body)) priv f d).1.extended = true :=
      hkept.extended.trans (wideInsn_ext body)
    have himm' : (opdecCase (opdecClass (wideInsn body)) priv f d).1.imm8h = imm :=
      hkept.imm8h.trans (e8Low_imm imm cond)
    have hopdec : opdec (wideInsn body) (e8Low cond imm) priv =
        opdecExtension (e8Low cond imm) (opdecClass (wideInsn body)) priv
          (opdecImmediate (e8Low cond imm)
            (opdecCase (opdecClass (wideInsn body)) priv f d).2
            (opdecCase (opdecClass (wideInsn body)) priv f d).1) := by
      rw [opdec, hop]
    rw [hopdec, (opdecExtension_immediate ..).1, (opdecExtension_immediate ..).2.1,
      opdecCase_loadNone (wideInsn_class body)]
    simp [opdecImmediate, hext', e8Low_load, himm']
  simp [decodeInsn, decodeLoad, decodeImreg, hdec]

/-- The decoder reads back the value that the words of a site hold, if the form has room for it. -/
theorem Template.decodeSeq_imreg (t : Template) {v : Int} (priv : Bool) (pc : Word) (next : Opcode)
    {dr : DecodeRegs} (hdr : dr.imflag = false)
    (hv : t.width ≠ 32 → xtcFitsImm v t.width = true) :
    (decodeSeq priv next pc dr (t.halfwords v)).imreg = t.immediate v := by
  cases t with
  | i8 cls reg =>
    rw [halfwords, (decodeSeq_imm priv next pc reg cls _ hdr).2]
    exact signExtend_of_fits (by decide) (hv (by simp [width]))
  | e8 body cond =>
    rw [halfwords, decodeSeq, wideInsn_ext, if_pos rfl, decodeSeq, decodeInsn_wide, hdr]
    exact signExtend_of_fits (by decide) (hv (by simp [width]))
  | e8I8 cls reg cond =>
    rw [halfwords, (decodeSeq_imm_ext priv next pc cond reg cls _ _ hdr).2, Bits.ofInt_append 8 8 v]
    exact signExtend_of_fits (by decide) (hv (by simp [width]))
  | e24 cond =>
    rw [halfwords, decodeSeq, e24High_ext, if_pos rfl, decodeSeq, (decodeInsn_e24 _ _ _ _ hdr).2.2]
    rfl
  | e24I8 prefixCond cls reg =>
    rw [halfwords, (decodeSeq_e24_imm priv next pc prefixCond reg cls _ _ hdr).2]
    exact Bits.ofInt_append 24 8 v
  | e24E8 prefixCond body cond =>
    obtain ⟨hflag, -, himreg⟩ := decodeInsn_e24 priv pc prefixCond (v >>> (8 : Nat)) hdr
    rw [halfwords, decodeSeq, e24High_ext, if_pos rfl, decodeSeq, wideInsn_ext, if_pos rfl,
      decodeSeq, decodeInsn_wide, hflag, himreg, if_pos rfl, extractLsb_signExtend]
    exact Bits.ofInt_append 24 8 v

end Decoder

/-! ## What the linker writes -/

section Writes

variable {m : Location} {dest : Nat}

def SameOutside (m m' : Location) (dest n : Nat) : Prop :=
  ∀ a, a < dest ∨ dest + n ≤ a → m' a = m a

theorem SameOutside.trans {m m' m'' : Location} {d e n k : Nat} (h : SameOutside m m' d n)
    (h' : SameOutside m' m'' e k) (hde : d ≤ e) (hle : e + k ≤ d + n) : SameOutside m m'' d n := by
  intro a ha
  rw [h' a (by omega), h a ha]

theorem sameOutside_put16 (x : BitVec 16) : SameOutside m (xtcPut16 x m dest) dest 2 := by
  intro a ha
  simp only [xtcPut16, Location.set]
  rw [if_neg (by omega), if_neg (by omega)]

theorem sameOutside_emitE24 (v : Int) : SameOutside m (xtcEmitE24 m dest v) dest 4 := by
  intro a ha
  simp only [xtcEmitE24, Location.set]
  repeat rw [if_neg (by omega)]

theorem SameOutside.mono {m' : Location} {d e n k : Nat} (h : SameOutside m m' e k) (hde : d ≤ e)
    (hle : e + k ≤ d + n) : SameOutside m m' d n :=
  fun a ha => h a (by omega)

/-- Whether `value` covers the bits of `old` that emission leaves in place.  Only the forms with a
prefix have such bits. -/
def Template.Over (old value : Int) : Template → Prop
  | e24 .. => E24Over old value
  | e24I8 .. | e24E8 .. => E24Over (old >>> (8 : Nat)) (value >>> (8 : Nat))
  | _ => True

/-- Writing a value into a site that holds another one gives the words that hold the value, if the
bits left in place are among its own. -/
theorem Template.emit_over (t : Template) (pcrel : Bool) {old v : Int}
    (hsite : m.halfwords dest t.size = t.halfwords old)
    (hv : t.checked = true → xtcFitsImm v t.width = true) :
    ∃ m', xtcEmitRelocation (t.reloc pcrel) v m dest = some m' ∧
      (m'.halfwords dest t.size = t.halfwords v ↔ t.Over old v) ∧
      SameOutside m m' dest (2 * t.size) := by
  cases t with
  | i8 cls reg =>
    have hfits : xtcFitsImm v 8 = true := hv rfl
    obtain ⟨h0, -⟩ := List.cons.inj hsite
    refine ⟨xtcPutImm8 m dest v, by cases pcrel <;> simp [reloc, xtcEmitRelocation, hfits], ?_,
      sameOutside_put16 _⟩
    exact iff_of_true (congrArg₂ List.cons (xtcGet16_putImm8 v h0) rfl) trivial
  | e8 body cond =>
    have hfits : xtcFitsImm v 8 = true := hv rfl
    obtain ⟨h0, hrest⟩ := List.cons.inj hsite
    obtain ⟨h2, -⟩ := List.cons.inj hrest
    refine ⟨xtcPutExt8 m (dest + 2) v, by cases pcrel <;> simp [reloc, xtcEmitRelocation, hfits],
      iff_of_true ?_ trivial, (sameOutside_put16 _).mono (by omega) (by simp [size, immMask])⟩
    have h0' : xtcGet16 (xtcPutExt8 m (dest + 2) v) dest = wideInsn body := by
      rw [xtcPutExt8, xtcGet16_put16_frame _ (by omega), h0]
    exact congrArg₂ List.cons h0' (congrArg₂ List.cons (xtcGet16_putExt8 v h2) rfl)
  | e8I8 cls reg cond =>
    have hfits : xtcFitsImm v 16 = true := hv rfl
    obtain ⟨h0, hrest⟩ := List.cons.inj hsite
    obtain ⟨h2, -⟩ := List.cons.inj hrest
    refine ⟨xtcPutExt8 (xtcPutImm8 m dest v) (dest + 2) (v >>> (8 : Nat)),
      by cases pcrel <;> simp [reloc, xtcEmitRelocation, hfits], iff_of_true ?_ trivial, ?_⟩
    · have h2' : xtcGet16 (xtcPutImm8 m dest v) (dest + 2) =
          e8Low cond (BitVec.ofInt 8 (old >>> (8 : Nat))) := by
        rw [xtcPutImm8, xtcGet16_put16_frame _ (by omega)]
        exact h2
      have h0' : xtcGet16 (xtcPutExt8 (xtcPutImm8 m dest v) (dest + 2) (v >>> (8 : Nat))) dest =
          immInsn 1 cls (BitVec.ofInt 8 v) reg := by
        rw [xtcPutExt8, xtcGet16_put16_frame _ (by omega), xtcGet16_putImm8 v h0]
      exact congrArg₂ List.cons h0' (congrArg₂ List.cons (xtcGet16_putExt8 _ h2') rfl)
    · exact ((sameOutside_put16 _).mono le_rfl (by simp [size, immMask])).trans
        (sameOutside_put16 _) (by omega) (by simp [size, immMask])
  | e24 cond =>
    have hfits : xtcFitsImm v 24 = true := hv rfl
    obtain ⟨h0, hrest⟩ := List.cons.inj hsite
    obtain ⟨h2, -⟩ := List.cons.inj hrest
    refine ⟨xtcEmitE24 m dest v, by cases pcrel <;> simp [reloc, xtcEmitRelocation, hfits], ?_,
      sameOutside_emitE24 v⟩
    rw [Over, ← xtcGet16_emitE24_over v h0 h2]
    simp [size, immMask, Location.halfwords, halfwords]
  | e24I8 prefixCond cls reg =>
    obtain ⟨h0, hrest⟩ := List.cons.inj hsite
    obtain ⟨h2, hrest⟩ := List.cons.inj hrest
    obtain ⟨h4, -⟩ := List.cons.inj hrest
    have hinsn : xtcGet16 (xtcEmitE24 m dest (v >>> (8 : Nat))) (dest + 4) =
        immInsn 0 cls (BitVec.ofInt 8 old) reg := by
      rw [xtcGet16_emitE24_frame _ (by omega)]
      exact h4
    refine ⟨xtcPutImm8 (xtcEmitE24 m dest (v >>> (8 : Nat))) (dest + 4) v,
      by cases pcrel <;> rfl, ?_, ?_⟩
    · simp only [size, immMask, List.length_cons, List.length_nil, Location.halfwords, halfwords]
      rw [Over, ← xtcGet16_emitE24_over (v >>> (8 : Nat)) h0 h2, xtcGet16_putImm8 v hinsn,
        xtcPutImm8, xtcGet16_put16_frame _ (by omega), xtcGet16_put16_frame _ (by omega)]
      simp
    · exact ((sameOutside_emitE24 _).mono le_rfl (by simp [size, immMask])).trans
        (sameOutside_put16 _) (by omega) (by simp [size, immMask])
  | e24E8 prefixCond body cond =>
    have hfits : xtcFitsImm v 32 = true := hv rfl
    obtain ⟨h0, hrest⟩ := List.cons.inj hsite
    obtain ⟨h2, hrest⟩ := List.cons.inj hrest
    obtain ⟨h4, hrest⟩ := List.cons.inj hrest
    obtain ⟨h6, -⟩ := List.cons.inj hrest
    have hext : xtcGet16 (xtcEmitE24 m dest (v >>> (8 : Nat))) (dest + 6) =
        e8Low cond (BitVec.ofInt 8 old) := by
      rw [xtcGet16_emitE24_frame _ (by omega)]
      exact h6
    have hwide : xtcGet16 m (dest + 4) = wideInsn body := h4
    refine ⟨xtcPutExt8 (xtcEmitE24 m dest (v >>> (8 : Nat))) (dest + 6) v,
      by cases pcrel <;> simp [reloc, xtcEmitRelocation, hfits], ?_, ?_⟩
    · simp only [size, immMask, List.length_cons, List.length_nil, Location.halfwords, halfwords]
      rw [Over, ← xtcGet16_emitE24_over (v >>> (8 : Nat)) h0 h2, xtcGet16_putExt8 v hext,
        xtcPutExt8, xtcGet16_put16_frame _ (by omega), xtcGet16_put16_frame _ (by omega),
        xtcGet16_put16_frame _ (by omega), xtcGet16_emitE24_frame (e := dest + 4) _ (by omega)]
      simp [hwide]
    · exact ((sameOutside_emitE24 _).mono le_rfl (by simp [size, immMask])).trans
        (sameOutside_put16 _) (by omega) (by simp [size, immMask])

theorem Template.over_zero (t : Template) (v : Int) : t.Over 0 v := by
  cases t <;> first | exact trivial | exact e24Over_zero _

theorem Template.emit_halfwords (t : Template) (pcrel : Bool) {v : Int}
    (hsite : m.halfwords dest t.size = t.halfwords 0)
    (hv : t.checked = true → xtcFitsImm v t.width = true) :
    ∃ m', xtcEmitRelocation (t.reloc pcrel) v m dest = some m' ∧
      m'.halfwords dest t.size = t.halfwords v ∧ SameOutside m m' dest (2 * t.size) := by
  obtain ⟨m', hemit, hover, hout⟩ := t.emit_over pcrel hsite hv
  exact ⟨m', hemit, hover.mpr (t.over_zero v), hout⟩

end Writes

/-! ## The round trip -/

section Fixed

variable (ext : BitVec 1) (cls : BitVec 2) (imm : BitVec 8) (reg cond : BitVec 4) (v : Int)

theorem immInsn_fixed : immInsn ext cls imm reg &&& ~~~0x0FF0#16 = immInsn ext cls 0 reg := by
  apply BitVec.eq_of_getLsbD_eq
  intro i hi
  simp only [immInsn, BitVec.getLsbD_append, BitVec.getLsbD_and, BitVec.getLsbD_not]
  interval_cases i <;> simp

theorem e8Low_fixed : e8Low cond imm &&& ~~~0x00FF#16 = e8Low cond 0 := by
  apply BitVec.eq_of_getLsbD_eq
  intro i hi
  simp only [e8Low, BitVec.getLsbD_append, BitVec.getLsbD_and, BitVec.getLsbD_not]
  interval_cases i <;> simp

theorem e24High_fixed : e24High v &&& ~~~0x7FFF#16 = e24High 0 := by
  apply BitVec.eq_of_getLsbD_eq
  intro i hi
  simp only [e24High, BitVec.getLsbD_append, BitVec.getLsbD_and, BitVec.getLsbD_not]
  interval_cases i <;> simp

theorem e24Low_fixed : e24Low cond v &&& ~~~0x10FF#16 = e24Low cond 0 := by
  apply BitVec.eq_of_getLsbD_eq
  intro i hi
  simp only [e24Low, BitVec.getLsbD_append, BitVec.getLsbD_and, BitVec.getLsbD_not]
  interval_cases i <;> simp

end Fixed

theorem Template.fixedBits_halfwords (t : Template) (v w : Int) :
    fixedBits (t.halfwords v) t.immMask = fixedBits (t.halfwords w) t.immMask := by
  cases t <;>
    simp only [fixedBits, halfwords, immMask, List.zipWith_cons_cons, List.zipWith_nil_left,
      immInsn_fixed, e8Low_fixed, e24High_fixed, e24Low_fixed]

theorem Template.emit_refused (t : Template) (pcrel : Bool) {v : Int} {m : Location} {dest : Nat}
    (hc : t.checked = true) (hv : xtcFitsImm v t.width = false) :
    xtcEmitRelocation (t.reloc pcrel) v m dest = none := by
  cases t
  case e24I8 => cases hc
  all_goals
    have hv' := hv
    simp only [width] at hv'
    cases pcrel <;> simp [reloc, xtcEmitRelocation, hv']

/-- Either the value is written, the decoder reads it back and no bit outside the immediate fields
has changed, or it is refused, it is too large for the form and nothing has changed. -/
theorem emit_roundtrip (t : Template) (pcrel : Bool) (v : Int) {m : Location} {dest : Nat}
    (hsite : m.halfwords dest t.size = t.halfwords 0) (priv : Bool) (pc : Word) (next : Opcode)
    {dr : DecodeRegs} (hdr : dr.imflag = false) (r : Int) (m' : Location)
    (hrun : (xtcEmitRelocationAt (t.reloc pcrel) v dest).run m = (r, m')) :
    (r = 0 ∧
      (decodeSeq priv next pc dr (m'.halfwords dest t.size)).imreg = t.immediate v ∧
      fixedBits (m'.halfwords dest t.size) t.immMask =
        fixedBits (m.halfwords dest t.size) t.immMask ∧
      SameOutside m m' dest (2 * t.size)) ∨
    (r = -1 ∧ ¬ (-2 ^ (t.width - 1) ≤ v ∧ v < 2 ^ (t.width - 1)) ∧ m' = m) := by
  rw [xtcEmitRelocationAt_run] at hrun
  by_cases hv : t.checked = true → xtcFitsImm v t.width = true
  · obtain ⟨m₁, hemit, hwords, hout⟩ := t.emit_halfwords pcrel hsite hv
    rw [hemit] at hrun
    obtain ⟨rfl, rfl⟩ := Prod.mk.inj hrun
    refine .inl ⟨rfl, ?_, ?_, hout⟩
    · rw [hwords]
      refine t.decodeSeq_imreg priv pc next hdr fun hw => hv ?_
      cases t <;> first | rfl | exact absurd rfl hw
    · rw [hwords, hsite]
      exact t.fixedBits_halfwords v 0
  · simp only [Classical.not_imp, Bool.not_eq_true] at hv
    rw [t.emit_refused pcrel hv.1 hv.2] at hrun
    obtain ⟨rfl, rfl⟩ := Prod.mk.inj hrun
    refine .inr ⟨rfl, fun hfits => ?_, rfl⟩
    have hw : t.width ≠ 0 := by cases t <;> simp [Template.width]
    rw [(xtcFitsImm_iff hw).mpr hfits] at hv
    exact absurd hv.2 (by decide)

/-- `addi.cgt` on register 2, with zero in both immediate fields. -/
def addiSite : Location := fun i => [0xD0#8, 0x02#8, 0x43#8, 0x00#8].getD i 0

theorem emit_roundtrip_addi :
    (decodeSeq true 0 0x100 decodeReset
        (((xtcEmitRelocationAt .e8I8 (-300) 0).run addiSite).2.halfwords 0 2)).imreg =
      BitVec.ofInt 32 (-300) := by
  have hsite : addiSite.halfwords 0 (Template.e8I8 1 2 3).size =
      (Template.e8I8 1 2 3).halfwords 0 := by decide
  have hdr : decodeReset.imflag = false := rfl
  obtain h | h := emit_roundtrip (.e8I8 1 2 3) false (-300) hsite true 0x100 0 hdr _ _ rfl
  · exact h.2.1
  · exact absurd h.1 (by decide)

/-! ## Emission over an earlier value -/

theorem halfwords_inj {a b : Location} {dest n : Nat}
    (h : a.halfwords dest n = b.halfwords dest n) :
    ∀ x, dest ≤ x → x < dest + 2 * n → a x = b x := by
  induction n generalizing dest with
  | zero => intro x hle hlt; omega
  | succ n ih =>
    intro x hle hlt
    obtain ⟨hword, hrest⟩ := List.cons.inj h
    by_cases h0 : x = dest
    · rw [h0, ← xtcGet16_high (m := a), hword, xtcGet16_high]
    · by_cases h1 : x = dest + 1
      · rw [h1, ← xtcGet16_low (m := a), hword, xtcGet16_low]
      · exact ih hrest x (by omega) (by omega)

theorem SameOutside.eq_iff {m a b : Location} {dest n : Nat} (ha : SameOutside m a dest (2 * n))
    (hb : SameOutside m b dest (2 * n)) : a = b ↔ a.halfwords dest n = b.halfwords dest n := by
  constructor
  · rintro rfl
    rfl
  · intro h
    funext x
    by_cases hx : x < dest ∨ dest + 2 * n ≤ x
    · rw [ha x hx, hb x hx]
    · exact halfwords_inj h x (by omega) (by omega)

theorem Template.fits_of_accepted (t : Template) (pcrel : Bool) {v : Int} {m : Location}
    {dest : Nat} (h : ((xtcEmitRelocationAt (t.reloc pcrel) v dest).run m).1 = 0) :
    t.checked = true → xtcFitsImm v t.width = true := by
  intro hc
  by_contra hv
  rw [xtcEmitRelocationAt_run, t.emit_refused pcrel hc (by simpa using hv)] at h
  cases h

/-- The mask of `xtc_emit_e24` misses four bits of its field, so that the second of two emissions
leaves its own value exactly if it sets each of those that the first has set. -/
theorem emit_twice_iff (t : Template) (pcrel : Bool) (v₁ v₂ : Int) {m : Location} {dest : Nat}
    (hsite : m.halfwords dest t.size = t.halfwords 0)
    (h₁ : ((xtcEmitRelocationAt (t.reloc pcrel) v₁ dest).run m).1 = 0)
    (h₂ : ((xtcEmitRelocationAt (t.reloc pcrel) v₂ dest).run m).1 = 0) :
    ((xtcEmitRelocationAt (t.reloc pcrel) v₂ dest).run
        ((xtcEmitRelocationAt (t.reloc pcrel) v₁ dest).run m).2).2 =
      ((xtcEmitRelocationAt (t.reloc pcrel) v₂ dest).run m).2 ↔ t.Over v₁ v₂ := by
  have hfits₂ := t.fits_of_accepted pcrel h₂
  obtain ⟨m₁, hemit₁, hwords₁, hout₁⟩ :=
    t.emit_halfwords pcrel hsite (t.fits_of_accepted pcrel h₁)
  obtain ⟨m₂, hemit₂, hover, hout₂⟩ := t.emit_over pcrel hwords₁ hfits₂
  obtain ⟨m', hemit, hwords, hout⟩ := t.emit_halfwords pcrel hsite hfits₂
  simp only [xtcEmitRelocationAt_run, hemit₁, hemit₂, hemit]
  rw [(hout₁.trans hout₂ le_rfl le_rfl).eq_iff hout, hwords, hover]

/-- `limr` of register 2 after a prefix, with zero in both immediate fields. -/
def limrSite : Location := fun i =>
  [0x80#8, 0x00#8, 0x60#8, 0x00#8, 0x70#8, 0x02#8].getD i 0

/-- A symbol that moves up across a megabyte. -/
theorem emit_twice_up :
    ((xtcEmitRelocationAt .e24I8 0x100004 0).run
        ((xtcEmitRelocationAt .e24I8 0x0FFFFC 0).run limrSite).2).2 =
      ((xtcEmitRelocationAt .e24I8 0x100004 0).run limrSite).2 := by
  have hsite : limrSite.halfwords 0 (Template.e24I8 0 3 2).size =
      (Template.e24I8 0 3 2).halfwords 0 := by decide
  have hover : (Template.e24I8 0 3 2).Over 0x0FFFFC 0x100004 := by
    unfold Template.Over
    decide
  exact (emit_twice_iff (.e24I8 0 3 2) false 0x0FFFFC 0x100004 hsite rfl rfl).mpr hover

/-- A symbol that moves down across it is linked a megabyte too high. -/
theorem emit_twice_down : limrSite.halfwords 0 (Template.e24I8 0 3 2).size =
      (Template.e24I8 0 3 2).halfwords 0 ∧
    ((xtcEmitRelocationAt .e24I8 0x100004 0).run limrSite).1 = 0 ∧
    ((xtcEmitRelocationAt .e24I8 0x0FFFFC 0).run limrSite).1 = 0 ∧
    ((xtcEmitRelocationAt .e24I8 0x0FFFFC 0).run
        ((xtcEmitRelocationAt .e24I8 0x100004 0).run limrSite).2).2 ≠
      ((xtcEmitRelocationAt .e24I8 0x0FFFFC 0).run limrSite).2 := by
  refine ⟨by decide, rfl, rfl, fun heq => ?_⟩
  have hbyte := congrFun heq 0
  revert hbyte
  decide

end Xtc.Linker
