import Xtc.Tools.Found

/-!
# Stated — disassembled text against the decoder

For every instruction of the table, the words on which the printed text names what the decode
registers hold.
-/

namespace Xtc.Tools

open Xtc.Linker

/-! ## What the text has to agree on -/

def letter (hi lo : Opcode) : ExtFlags :=
  if hi.getLsbD 15 = true ∧ lo.getLsbD 15 = false then
    if lo.extractLsb 14 13 = 0b01#2 then .dreg
    else if lo.extractLsb 14 13 = 0b10#2 then .immed
    else .none
  else .none

def SetsDest (hi lo : Opcode) : Prop := hi.getLsbD 15 = true ∧ lo.extractLsb 14 12 = 0b010#3

/-- The extension word asks for the immediate form of an ALU instruction. -/
def SetsForm (hi lo : Opcode) : Prop := hi.getLsbD 15 = true ∧ lo.extractLsb 14 12 = 0b100#3

theorem Executed.withDest_eq_iff {x : Executed} {d : RegAddress} :
    x.withDest d = x ↔ x.dest = none ∨ x.dest = some d := by
  constructor
  · intro h
    have hd : x.dest.map (fun _ => d) = x.dest := congrArg Executed.dest h
    cases hx : x.dest with
    | none => exact .inl rfl
    | some e =>
      rw [hx] at hd
      exact .inr hd.symm
  · intro h
    have hd : x.dest.map (fun _ => d) = x.dest := by
      obtain h | h := h <;> rw [h] <;> rfl
    unfold Executed.withDest
    rw [hd]

theorem type_bits (lo : Opcode) :
    lo.extractLsb 14 13 = (lo.extractLsb 14 12).extractLsb 2 1 := by
  apply BitVec.eq_of_getLsbD_eq
  intro i hi
  simp only [BitVec.getLsbD_extractLsb]
  interval_cases i <;> simp

/-- The suffix read from the text does what the extension word does. -/
theorem letter_apply_iff {hi lo : Opcode} (priv : Bool) {f : Fields} {x : Executed}
    {b : RegAddress} (hb : x.withImmediate (regaddress priv f.rb) = x.withImmediate b)
    (hnot : ¬(hi.getLsbD 15 = true ∧ lo.extractLsb 14 13 = 0b11#2))
    (hthird : third f.rest = none ∨ third f.rest = some (lo.extractLsb 3 0)) :
    (letter hi lo).apply priv f x =
        some (if hi.getLsbD 15 = true then x.extend priv lo b else x) ↔
      (x.dest = none ∨ (letter hi lo = .dreg → third f.rest = some (lo.extractLsb 3 0)) ∧
        ((letter hi lo = .dreg ↔ SetsDest hi lo) ∨
          x.dest = some (regaddress priv (lo.extractLsb 3 0)))) ∧
      (x.withImmediate b = x ∨ (letter hi lo = .immed ↔ SetsForm hi lo)) := by
  set d := lo.extractLsb 3 0
  have hdest := @Executed.withDest_eq_iff x (regaddress priv d)
  -- a third register that is read, where the extension word gives one
  have hthirdDest : (if x.dest = none then some x
      else (third f.rest).map fun r => x.withDest (regaddress priv r)) =
        some (x.withDest (regaddress priv d)) ↔ x.dest = none ∨ third f.rest = some d := by
    by_cases hnone : x.dest = none
    · simp [hnone, hdest.mpr (.inl hnone)]
    · obtain h | h := hthird <;> simp [hnone, h]
  -- and where it gives none
  have hthirdPlain : (¬x.dest = none →
      ∃ r, third f.rest = some r ∧ x.withDest (regaddress priv r) = x) ↔
        x.dest = none ∨ third f.rest = some d ∧ x.dest = some (regaddress priv d) := by
    by_cases hnone : x.dest = none
    · simp [hnone]
    · obtain h | h := hthird <;> simp [hnone, h, hdest]
  by_cases hext : hi.getLsbD 15 = true
  · have hcases : ∀ t : BitVec 3, t = 0 ∨ t = 1 ∨ t = 2 ∨ t = 3 ∨ t = 4 ∨ t = 5 ∨
        t.extractLsb 2 1 = 0b11#2 := by decide
    have htype := type_bits lo
    unfold letter SetsDest SetsForm Executed.extend
    rw [if_pos hext]
    -- the type bits decide the letter, the top bit whether it is printed
    obtain ht | ht | ht | ht | ht | ht | ht := hcases (lo.extractLsb 14 12)
    case inr.inr.inr.inr.inr.inr => exact absurd ⟨hext, htype.trans ht⟩ hnot
    all_goals
      rw [ht] at htype
      cases htop : lo.getLsbD 15 <;> simp [htype, ht, ExtFlags.apply, hb, hext]
    · exact hthirdDest
    · exact eq_comm.trans hdest
    · exact hthirdPlain
    · exact eq_comm
  · simp [letter, SetsDest, SetsForm, hext, ExtFlags.apply, -BitVec.getLsbD_eq_getElem]

/-- The number is printed as the decoder extends it. -/
def NumberStated (hi lo : Opcode) : InstType → Prop
  | .imm => hi.extractLsb 14 12 = 0 ∧ lo.getLsbD 12 = false ∧ lo.extractLsb 7 0 = 0
  | .imm8R =>
      if HasNumber hi lo then lo.extractLsb 7 0 = 0 else (hi.extractLsb 11 4).toNat < 128
  | .r1R2 | .memLoad | .memStore => HasNumber hi lo →
      lo.extractLsb 7 0 = 0 ∨ lo.getLsbD 15 = false ∧ (lo.extractLsb 7 0).toNat < 128
  | _ => HasNumber hi lo → lo.extractLsb 7 0 = 0

/-- The fields that only some instructions have are the decoder's. -/
def FieldsStated (m : Mnemonic) (hi lo : Opcode) : InstType → Prop
  | .imm => opdecCondition (lo.extractLsb 11 8) = .unconditional
  | .cop => m = .copr ∧ hi.extractLsb 9 8 = 0 ∧ hi.extractLsb 7 4 = 0 ∨
      m = .copw ∧ hi.extractLsb 9 8 = 3 ∧ hi.extractLsb 7 4 = 6
  | .rspr | .wspr => (hi.extractLsb 6 4).toNat < 6
  | _ => True

/-- The words on which the text agrees with the decoder. -/
structure Stated (priv : Bool) (m : Mnemonic) (hi lo : Opcode) : Prop where
  /-- The destination is the one that is printed. -/
  dest : let x := m.executes priv (hi.extractLsb 9 8) (hi.extractLsb 7 4) (hi.extractLsb 3 0)
    x.dest = none ∨ (letter hi lo = .dreg → m.entry.instType = .r1R2) ∧
      ((letter hi lo = .dreg ↔ SetsDest hi lo) ∨
        x.dest = some (regaddress priv (lo.extractLsb 3 0)))
  /-- So is the immediate form. -/
  form : m.takesImmediate = false ∨ (letter hi lo = .immed ↔ SetsForm hi lo)
  number : NumberStated hi lo m.entry.instType
  fields : FieldsStated m hi lo m.entry.instType

section Found

variable {hi lo : Opcode} {m : Mnemonic}

theorem insnWord_eta (hi : Opcode) :
    insnWord (hi.extractLsb 15 15) (hi.extractLsb 14 8) (hi.extractLsb 7 4) (hi.extractLsb 3 0) =
      hi := by
  apply BitVec.eq_of_getLsbD_eq
  intro i hi'
  simp only [insnWord, BitVec.getLsbD_append, BitVec.getLsbD_extractLsb]
  interval_cases i <;> simp

theorem ext_eq_one (hi : Opcode) : hi.extractLsb 15 15 = 1 ↔ hi.getLsbD 15 = true := by
  have h0 : (hi.extractLsb 15 15).getLsbD 0 = hi.getLsbD 15 := by
    rw [BitVec.getLsbD_extractLsb]
    simp
  rw [← h0]
  generalize hi.extractLsb 15 15 = e
  revert e
  decide

theorem copId_eq (hi : Opcode) : (hi.extractLsb 14 8).extractLsb 1 0 = hi.extractLsb 9 8 := by
  apply BitVec.eq_of_getLsbD_eq
  intro i hi'
  simp only [BitVec.getLsbD_extractLsb]
  interval_cases i <;> simp

theorem executed_found (priv : Bool) (pc : Word) {dr : DecodeRegs}
    (h : findOpcode (readInsn hi lo) = some m) (hm : m ≠ .imm) (hdr : dr.imflag = false) :
    executed (decodeInsn priv pc hi lo dr) =
      let x := m.executes priv (hi.extractLsb 9 8) (hi.extractLsb 7 4) (hi.extractLsb 3 0)
      (if hi.getLsbD 15 = true then x.extend priv lo (regaddress priv (hi.extractLsb 7 4)) else x)
        |>.withCondition (if hi.getLsbD 15 = true then opdecCondition (lo.extractLsb 11 8)
          else .unconditional) := by
  have hcov := covers_of_fits hm (fits_of_find h)
  have hnot := not_prefix_of_find h hm
  have hx := hcov.executed (hi.extractLsb 15 15) (hi.extractLsb 7 4) (hi.extractLsb 3 0) lo priv pc
    dr (by rw [ext_eq_one]; exact hnot)
  rw [insnWord_eta] at hx
  rw [hx, hdr, copId_eq]
  simp only [ext_eq_one]
  rfl

theorem not_isExt (hm : m ≠ .imm) : m.entry.ext ≠ .isExt := by
  cases m
  case imm => exact absurd rfl hm
  all_goals exact nofun

theorem printedSuffix_eq (hm : m ≠ .imm) :
    printedSuffix (readInsn hi lo) m =
      if hi.getLsbD 15 = true then some ⟨getcc (lo.extractLsb 11 8), letter hi lo⟩ else none := by
  by_cases hext : hi.getLsbD 15 = true
  · have hlet : printedFlags (readInsn hi lo) = letter hi lo := by
      rw [printedFlags_eq hi lo hext]
      unfold letter
      cases lo.getLsbD 15 <;> simp [hext]
    rw [printedSuffix, if_pos ⟨(readInsn_extended hi lo).mpr hext, not_isExt hm⟩, if_pos hext,
      readInsn_cond hi lo hext, hlet]
  · rw [printedSuffix, if_neg (fun h => hext ((readInsn_extended hi lo).mp h.1)), if_neg hext]

theorem printed_letter (hm : m ≠ .imm) :
    ((printedSuffix (readInsn hi lo) m).map Suffix.flags).getD .none = letter hi lo := by
  rw [printedSuffix_eq hm]
  by_cases hext : hi.getLsbD 15 = true
  · rw [if_pos hext]
    rfl
  · rw [if_neg hext, letter, if_neg (fun h => hext h.1)]
    rfl

theorem printed_named (hm : m ≠ .imm) (ops : List Operand) :
    (Line.mk m (printedSuffix (readInsn hi lo) m) ops).named =
      if hi.getLsbD 15 = true then opdecCondition (lo.extractLsb 11 8) else .unconditional := by
  unfold Line.named Line.cond
  rw [printedSuffix_eq hm]
  by_cases hext : hi.getLsbD 15 = true
  · rw [if_pos hext, if_pos hext]
    exact getcc_condition _
  · rw [if_neg hext, if_neg hext]
    rfl

end Found

theorem apply_frame {F : ExtFlags} {priv : Bool} {f : Fields} {x y : Executed}
    (h : F.apply priv f x = some y) : y.condition = x.condition ∧ y.cop = x.cop := by
  cases F with
  | none => exact (Option.some_inj.mp h) ▸ ⟨rfl, rfl⟩
  | immed =>
    rw [← Option.some_inj.mp h]
    unfold Executed.withImmediate
    split <;> exact ⟨rfl, rfl⟩
  | dreg =>
    change (if x.dest.isNone then some x
      else (third f.rest).map fun d => x.withDest (regaddress priv d)) = some y at h
    split at h
    · exact (Option.some_inj.mp h) ▸ ⟨rfl, rfl⟩
    · obtain ⟨d, -, rfl⟩ := Option.map_eq_some_iff.mp h
      exact ⟨rfl, rfl⟩

theorem Executed.extend_frame (priv : Bool) (lo : Opcode) (b : RegAddress) (x : Executed) :
    (x.extend priv lo b).condition = x.condition ∧ (x.extend priv lo b).cop = x.cop := by
  unfold Executed.extend Executed.withDest Executed.withImmediate
  split
  · exact ⟨rfl, rfl⟩
  · split
    · split <;> exact ⟨rfl, rfl⟩
    · exact ⟨rfl, rfl⟩

theorem Executed.withCondition_right_inj {x y : Executed} {c : Condition}
    (hcond : x.condition = y.condition) : x.withCondition c = y.withCondition c ↔ x = y := by
  constructor
  · intro h
    have h' := congrArg (Executed.withCondition x.condition) h
    rw [← Executed.withCondition_self (x := x) rfl, ← Executed.withCondition_self (x := y) rfl,
      ← hcond]
    exact h'
  · rintro rfl
    rfl

/-- The text read as a line against the decoder, once its operands have been read. -/
theorem text_iff {hi lo : Opcode} {m : Mnemonic} (priv : Bool) (pc : Word) {dr : DecodeRegs}
    (h : findOpcode (readInsn hi lo) = some m) (hm : m ≠ .imm) (hdr : dr.imflag = false)
    {ops : List Operand} {f : Fields}
    (hops : (printedOperands (readInsn hi lo) m).mapM PrintedOperand.operand = some ops)
    (hf : (Line.mk m (printedSuffix (readInsn hi lo) m) ops).fields = some f) :
    (printedFor (readInsn hi lo) m).line.bind (Line.executes priv) =
        some (executed (decodeInsn priv pc hi lo dr)) ↔
      (letter hi lo).apply priv f (m.executes priv f.copId f.rb f.ra) =
        let x := m.executes priv (hi.extractLsb 9 8) (hi.extractLsb 7 4) (hi.extractLsb 3 0)
        some (if hi.getLsbD 15 = true then x.extend priv lo (regaddress priv (hi.extractLsb 7 4))
          else x) := by
  have hline : (printedFor (readInsn hi lo) m).line =
      some ⟨m, printedSuffix (readInsn hi lo) m, ops⟩ := by
    rw [Printed.line]
    simp only [printedFor, hops]
    rfl
  have hflags : (Line.mk m (printedSuffix (readInsn hi lo) m) ops).flags = letter hi lo :=
    printed_letter hm
  rw [hline, Option.bind_some, executed_found priv pc h hm hdr]
  set x := m.executes priv (hi.extractLsb 9 8) (hi.extractLsb 7 4) (hi.extractLsb 3 0)
  set y := if hi.getLsbD 15 = true then
    x.extend priv lo (regaddress priv (hi.extractLsb 7 4)) else x
    with hy
  have hycond : y.condition = .unconditional := by
    rw [hy]
    split
    · rw [(Executed.extend_frame ..).1]
      exact m.executes_condition ..
    · exact m.executes_condition ..
  cases happly : (letter hi lo).apply priv f (m.executes priv f.copId f.rb f.ra) with
  | none =>
    rw [Line.executes_eq_none priv hf (by rw [hflags]; exact happly)]
    simp
  | some z =>
    have hz : z.condition = y.condition :=
      ((apply_frame happly).1.trans (m.executes_condition ..)).trans hycond.symm
    rw [Line.executes_eq priv hf (by rw [hflags]; exact happly), printed_named hm,
      Option.some_inj, Option.some_inj]
    exact Executed.withCondition_right_inj hz

/-! ## Operands of the text -/

theorem operand_reg (r : BitVec 4) :
    PrintedOperand.operand (.reg r.toNat) = some (.reg ⟨r.toNat, by omega⟩) :=
  dif_pos (by omega)

theorem read_cons {o : PrintedOperand} {a : Operand} {os : List PrintedOperand} {as : List Operand}
    (ho : o.operand = some a) (hs : os.mapM PrintedOperand.operand = some as) :
    (o :: os).mapM PrintedOperand.operand = some (a :: as) := by
  rw [List.mapM_cons, ho, hs]
  rfl

theorem gpr_toNat (r : BitVec 4) (h : r.toNat < 32) : gpr ⟨r.toNat, h⟩ = some r := by
  rw [gpr, if_pos r.isLt]
  simp

theorem Mnemonic.executes_copId {m : Mnemonic} (h : m.entry.instType ≠ .cop) (p : Bool)
    (i j : BitVec 2) (rb ra : BitVec 4) : m.executes p i rb ra = m.executes p j rb ra := by
  cases m
  case copr | copw => exact absurd rfl h
  all_goals rfl

theorem Mnemonic.Covers.class_lt {m : Mnemonic} {key : BitVec 7} (h : m.Covers key)
    (hty : m.entry.instType ≠ .imm8R) : (key.extractLsb 6 4).toNat < 4 := by
  cases m
  case imm => exact absurd rfl h.1
  case br | addi | cmpi | limr => exact absurd rfl hty
  case copr | copw => revert key; decide
  all_goals rw [h.eq_key rfl]; decide

theorem class_eq (hi : Opcode) :
    hi.extractLsb 14 12 = (hi.extractLsb 14 8).extractLsb 6 4 := by
  apply BitVec.eq_of_getLsbD_eq
  intro i hi'
  simp only [BitVec.getLsbD_extractLsb]
  interval_cases i <;> simp

theorem byte_toNat_eq_toInt (v : BitVec 8) : (v.toNat : Int) = v.toInt ↔ v.toNat < 128 := by
  have hlt := v.isLt
  rw [BitVec.toInt_eq_toNat_cond]
  split <;> omega

theorem byte_toInt_eq_zero (v : BitVec 8) : (0 : Int) = v.toInt ↔ v = 0 := by
  have hlt := v.isLt
  have hzero : (0 : BitVec 8).toNat = 0 := rfl
  rw [BitVec.toInt_eq_toNat_cond, BitVec.toNat_eq, hzero]
  split <;> omega

section Types

variable {hi lo : Opcode} {m : Mnemonic} (priv : Bool) (pc : Word) {dr : DecodeRegs}

theorem letter_eq_immed : letter hi lo = .immed ↔ HasNumber hi lo ∧ lo.getLsbD 15 = false := by
  unfold letter HasNumber
  cases hx : hi.getLsbD 15 <;> cases hl : lo.getLsbD 15 <;> simp
  split_ifs with h1 h2
  · simp [h1]
  · simp [h2]
  · simp [h2]

theorem letter_ext {hi lo : Opcode} (h : letter hi lo ≠ .none) : hi.getLsbD 15 = true := by
  by_contra hx
  exact h (if_neg (fun h' => hx h'.1))

theorem imreg_short (h : findOpcode (readInsn hi lo) = some m) (hm : m ≠ .imm)
    (hty : m.entry.instType ≠ .imm8R) (hdr : dr.imflag = false) :
    (decodeInsn priv pc hi lo dr).imreg.toInt =
      if HasNumber hi lo then (lo.extractLsb 7 0).toInt else 0 := by
  have hcov := covers_of_fits hm (fits_of_find h)
  have hclass : (hi.extractLsb 14 12).toNat < 4 := by
    rw [class_eq]
    exact hcov.class_lt hty
  rw [decodeInsn_imreg_short priv pc hclass (not_prefix_of_find h hm) hdr]
  split
  · exact BitVec.toInt_signExtend_of_le (by omega)
  · rfl

theorem number_iff (h : findOpcode (readInsn hi lo) = some m) (hm : m ≠ .imm)
    (hty : m.entry.instType ≠ .imm8R) (hdr : dr.imflag = false) :
    (if letter hi lo = .immed then ((lo.extractLsb 7 0).toNat : Int) else 0) =
        (decodeInsn priv pc hi lo dr).imreg.toInt ↔
      (HasNumber hi lo →
        lo.extractLsb 7 0 = 0 ∨ lo.getLsbD 15 = false ∧ (lo.extractLsb 7 0).toNat < 128) := by
  rw [imreg_short priv pc h hm hty hdr]
  by_cases hn : HasNumber hi lo
  · cases htop : lo.getLsbD 15 with
    | false =>
      rw [if_pos (letter_eq_immed.mpr ⟨hn, htop⟩), if_pos hn, byte_toNat_eq_toInt]
      constructor
      · exact fun hlt _ => .inr ⟨rfl, hlt⟩
      · intro hall
        obtain hz | ⟨-, hlt⟩ := hall hn
        · rw [hz]; decide
        · exact hlt
    | true =>
      have hne : letter hi lo ≠ .immed := by
        intro hl
        rw [letter_eq_immed, htop] at hl
        simp at hl
      rw [if_neg hne, if_pos hn, byte_toInt_eq_zero]
      simp [hn]
  · have hne : letter hi lo ≠ .immed := fun hl => hn (letter_eq_immed.mp hl).1
    rw [if_neg hne, if_neg hn]
    simp [hn]

theorem unnumbered_iff (h : findOpcode (readInsn hi lo) = some m) (hm : m ≠ .imm)
    (hty : m.entry.instType ≠ .imm8R) (hdr : dr.imflag = false) :
    0 = (decodeInsn priv pc hi lo dr).imreg.toInt ↔
      (HasNumber hi lo → lo.extractLsb 7 0 = 0) := by
  rw [imreg_short priv pc h hm hty hdr]
  split
  next hn =>
    rw [byte_toInt_eq_zero]
    simp [hn]
  next hn => simp [hn]

theorem immval_eq : (if letter hi lo = .immed then
    (getField (readInsn hi lo) 0xFF0000 16 : Int) else 0) =
      if letter hi lo = .immed then ((lo.extractLsb 7 0).toNat : Int) else 0 := by
  split
  next hl => rw [getField_immval hi lo (letter_ext (by rw [hl]; exact nofun))]
  next => rfl

theorem r1R2_operands (hi lo : Opcode) {m : Mnemonic} (hty : m.entry.instType = .r1R2)
    (hm : m ≠ .imm) :
    ∃ printed rest, printedOperands (readInsn hi lo) m =
        .reg (hi.extractLsb 7 4).toNat :: .reg (hi.extractLsb 3 0).toNat :: printed ∧
      printed.mapM PrintedOperand.operand = some rest ∧
      third rest = (if letter hi lo = .dreg then some (lo.extractLsb 3 0) else none) ∧
      (printedFor (readInsn hi lo) m).immediate =
        if letter hi lo = .immed then ((lo.extractLsb 7 0).toNat : Int) else 0 := by
  have hops : printedOperands (readInsn hi lo) m =
      if letter hi lo = .dreg then
        [.reg (hi.extractLsb 7 4).toNat, .reg (hi.extractLsb 3 0).toNat,
          .reg (getField (readInsn hi lo) 0xF0000 16)]
      else if (if letter hi lo = .immed then ((lo.extractLsb 7 0).toNat : Int) else 0) ≠ 0 then
        [.reg (hi.extractLsb 7 4).toNat, .reg (hi.extractLsb 3 0).toNat,
          .number (if letter hi lo = .immed then ((lo.extractLsb 7 0).toNat : Int) else 0)]
      else [.reg (hi.extractLsb 7 4).toNat, .reg (hi.extractLsb 3 0).toNat] := by
    simp only [printedOperands, hty, printed_letter hm, getField_r1, getField_r2, immval_eq]
  by_cases hd : letter hi lo = .dreg
  · have hne : letter hi lo ≠ .none := by
      rw [hd]
      decide
    have hext := letter_ext hne
    rw [if_pos hd, getField_dreg hi lo hext] at hops
    refine ⟨[.reg (lo.extractLsb 3 0).toNat], [.reg ⟨(lo.extractLsb 3 0).toNat, by omega⟩], hops,
      ?_, ?_, ?_⟩
    · exact read_cons (operand_reg _) rfl
    · rw [if_pos hd]
      exact gpr_toNat _ _
    · rw [printedFor, hops, Printed.immediate, if_neg (by rw [hd]; decide)]
      simp only [hty]
  · rw [if_neg hd] at hops
    by_cases hz : (if letter hi lo = .immed then ((lo.extractLsb 7 0).toNat : Int) else 0) ≠ 0
    · rw [if_pos hz] at hops
      refine ⟨[.number _], [.imm (.constant _)], hops, rfl, ?_, ?_⟩
      · rw [if_neg hd]
        rfl
      · rw [printedFor, hops, Printed.immediate]
        simp only [hty]
    · rw [if_neg hz] at hops
      refine ⟨[], [], hops, rfl, ?_, ?_⟩
      · rw [if_neg hd]
        rfl
      · rw [printedFor, hops, Printed.immediate]
        simp only [hty]
        exact (not_ne_iff.mp hz).symm

/-- The text against the decoder, for fields that name what the decoder finds. -/
theorem states_iff (h : findOpcode (readInsn hi lo) = some m) (hm : m ≠ .imm)
    (hdr : dr.imflag = false) {ops : List Operand} {f : Fields}
    (hops : (printedOperands (readInsn hi lo) m).mapM PrintedOperand.operand = some ops)
    (hf : (Line.mk m (printedSuffix (readInsn hi lo) m) ops).fields = some f)
    (hx : m.executes priv f.copId f.rb f.ra =
      m.executes priv (hi.extractLsb 9 8) (hi.extractLsb 7 4) (hi.extractLsb 3 0))
    (hb : m.entry.instType = .r1R2 → f.rb = hi.extractLsb 7 4)
    (hthird : third f.rest = if letter hi lo = .dreg ∧ m.entry.instType = .r1R2 then
      some (lo.extractLsb 3 0) else none)
    (hnum : (printedFor (readInsn hi lo) m).immediate =
      (decodeInsn priv pc hi lo dr).imreg.toInt ↔ NumberStated hi lo m.entry.instType)
    (hfields : FieldsStated m hi lo m.entry.instType) :
    (printedFor (readInsn hi lo) m).States priv (decodeInsn priv pc hi lo dr) ↔
      Stated priv m hi lo := by
  have htext := text_iff priv pc h hm hdr hops hf
  set x := m.executes priv (hi.extractLsb 9 8) (hi.extractLsb 7 4) (hi.extractLsb 3 0) with hxdef
  have himm : x.withImmediate (regaddress priv f.rb) =
      x.withImmediate (regaddress priv (hi.extractLsb 7 4)) := by
    by_cases hty : m.entry.instType = .r1R2
    · rw [hb hty]
    · have hop : x.op ≠ .alu := Mnemonic.executes_op_ne hty priv _ _ _
      rw [Executed.withImmediate, if_neg hop, Executed.withImmediate, if_neg hop]
  have hd : (letter hi lo = .dreg → third f.rest = some (lo.extractLsb 3 0)) ↔
      (letter hi lo = .dreg → m.entry.instType = .r1R2) := by
    rw [hthird]
    constructor
    · intro hall hl
      by_contra hty
      rw [if_neg (fun h' => hty h'.2)] at hall
      cases hall hl
    · exact fun hall hl => if_pos ⟨hl, hall hl⟩
  rw [hx, letter_apply_iff priv himm (not_prefix_of_find h hm) (by rw [hthird]; split <;> simp),
    m.withImmediate_eq_iff, hd] at htext
  rw [Printed.States, htext, hnum]
  exact ⟨fun hs => ⟨hs.1.1, hs.1.2, hs.2, hfields⟩, fun hs => ⟨⟨hs.dest, hs.form⟩, hs.number⟩⟩

/-- Instructions on two registers. -/
theorem stated_r1R2 (h : findOpcode (readInsn hi lo) = some m) (hty : m.entry.instType = .r1R2)
    (hdr : dr.imflag = false) :
    (printedFor (readInsn hi lo) m).States priv (decodeInsn priv pc hi lo dr) ↔
      Stated priv m hi lo := by
  have hm : m ≠ .imm := by
    rintro rfl
    cases hty
  obtain ⟨printed, rest, hops, hrest, hthird, himm⟩ := r1R2_operands hi lo hty hm
  have hread : (printedOperands (readInsn hi lo) m).mapM PrintedOperand.operand =
      some (.reg ⟨(hi.extractLsb 7 4).toNat, by omega⟩ ::
        .reg ⟨(hi.extractLsb 3 0).toNat, by omega⟩ :: rest) := by
    rw [hops]
    exact read_cons (operand_reg _) (read_cons (operand_reg _) hrest)
  have hf : (Line.mk m (printedSuffix (readInsn hi lo) m)
      (.reg ⟨(hi.extractLsb 7 4).toNat, by omega⟩ ::
        .reg ⟨(hi.extractLsb 3 0).toNat, by omega⟩ :: rest)).fields =
      some ⟨0, hi.extractLsb 7 4, hi.extractLsb 3 0, rest⟩ := by
    simp only [Line.fields, Line.instType, hty, gpr_toNat]
    rfl
  refine states_iff priv pc h hm hdr hread hf ?_ (fun _ => rfl) ?_ ?_ ?_
  · exact Mnemonic.executes_copId (by rw [hty]; exact nofun) ..
  · simp only [hthird, hty, and_true]
  · rw [himm, hty]
    exact number_iff priv pc h hm (by rw [hty]; exact nofun) hdr
  · rw [hty]
    trivial

theorem operand_mem (r : BitVec 4) (v : Int) :
    PrintedOperand.operand (.mem r.toNat v) = some (.mem ⟨r.toNat, by omega⟩
      (if v = 0 then none else some (.constant (BitVec.ofInt 32 v)))) :=
  dif_pos (by omega)

/-- Loads and stores. -/
theorem stated_mem (h : findOpcode (readInsn hi lo) = some m)
    (hty : m.entry.instType = .memLoad ∨ m.entry.instType = .memStore) (hdr : dr.imflag = false) :
    (printedFor (readInsn hi lo) m).States priv (decodeInsn priv pc hi lo dr) ↔
      Stated priv m hi lo := by
  have hm : m ≠ .imm := by
    rintro rfl
    revert hty
    decide
  have hnum := number_iff priv pc h hm (by obtain h' | h' := hty <;> rw [h'] <;> exact nofun) hdr
  have hid : m.executes priv 0 (hi.extractLsb 7 4) (hi.extractLsb 3 0) =
      m.executes priv (hi.extractLsb 9 8) (hi.extractLsb 7 4) (hi.extractLsb 3 0) :=
    Mnemonic.executes_copId (by obtain h' | h' := hty <;> rw [h'] <;> exact nofun) ..
  have hthird : ¬(letter hi lo = .dreg ∧ m.entry.instType = .r1R2) := by
    rintro ⟨-, h'⟩
    obtain h'' | h'' := hty <;> cases h'.symm.trans h''
  obtain hty | hty := hty
  · have hops : printedOperands (readInsn hi lo) m =
        [.mem (hi.extractLsb 3 0).toNat
          (if letter hi lo = .immed then ((lo.extractLsb 7 0).toNat : Int) else 0),
          .reg (hi.extractLsb 7 4).toNat] := by
      simp only [printedOperands, hty, printed_letter hm, getField_r1, getField_r2, immval_eq]
    refine states_iff priv pc h hm hdr
      (f := ⟨0, hi.extractLsb 7 4, hi.extractLsb 3 0, []⟩)
      (by rw [hops]; exact read_cons (operand_mem _ _) (read_cons (operand_reg _) rfl)) ?_ hid
      (fun _ => rfl) (if_neg hthird).symm ?_ (by rw [hty]; trivial)
    · simp only [Line.fields, Line.instType, hty, gpr_toNat]
      rfl
    · rw [printedFor, hops, Printed.immediate]
      simp only [hty]
      exact hnum
  · have hops : printedOperands (readInsn hi lo) m =
        [.reg (hi.extractLsb 7 4).toNat, .mem (hi.extractLsb 3 0).toNat
          (if letter hi lo = .immed then ((lo.extractLsb 7 0).toNat : Int) else 0)] := by
      simp only [printedOperands, hty, printed_letter hm, getField_r1, getField_r2, immval_eq]
    refine states_iff priv pc h hm hdr
      (f := ⟨0, hi.extractLsb 7 4, hi.extractLsb 3 0, []⟩)
      (by rw [hops]; exact read_cons (operand_reg _) (read_cons (operand_mem _ _) rfl)) ?_ hid
      (fun _ => rfl) (if_neg hthird).symm ?_ (by rw [hty]; trivial)
    · simp only [Line.fields, Line.instType, hty, gpr_toNat]
      rfl
    · rw [printedFor, hops, Printed.immediate]
      simp only [hty]
      exact hnum

theorem pair_toInt (h l : BitVec 8) : (l.toNat : Int) = (h ++ l).toInt ↔ h = 0 := by
  rw [BitVec.toInt_eq_toNat_cond, Bits.append_toNat, Bits.eq_zero_iff]
  split <;> omega

/-- Instructions with an eight-bit immediate of their own. -/
theorem stated_imm8R (h : findOpcode (readInsn hi lo) = some m) (hty : m.entry.instType = .imm8R)
    (hdr : dr.imflag = false) :
    (printedFor (readInsn hi lo) m).States priv (decodeInsn priv pc hi lo dr) ↔
      Stated priv m hi lo := by
  have hm : m ≠ .imm := by
    rintro rfl
    cases hty
  have hthird : ¬(letter hi lo = .dreg ∧ m.entry.instType = .r1R2) := by
    rintro ⟨-, h'⟩
    cases h'.symm.trans hty
  have hops : printedOperands (readInsn hi lo) m =
      [.number (hi.extractLsb 11 4).toNat, .reg (hi.extractLsb 3 0).toNat] := by
    simp only [printedOperands, hty, getField_r1, getFieldShort_imm8]
  have hop : opdecOp hi lo = (m.executes false 0 0 0).op := by
    rw [opdecOp, if_neg (not_prefix_of_find h hm), ← insnWord_eta hi, opdecClass_insnWord]
    exact (covers_of_fits hm (fits_of_find h)).opdecClass
  have hclass : opdecOp hi lo = .br ∨ opdecOp hi lo = .addi ∨ opdecOp hi lo = .cmpi ∨
      opdecOp hi lo = .limr := by
    rw [hop]
    revert hty
    clear * -
    cases m <;> decide
  refine states_iff priv pc h hm hdr (f := ⟨0, 0, hi.extractLsb 3 0, []⟩)
    (by rw [hops]; exact read_cons rfl (read_cons (operand_reg _) rfl)) ?_ ?_ ?_ ?_ ?_
    (by rw [hty]; trivial)
  · simp only [Line.fields, Line.instType, hty, gpr_toNat]
    rfl
  · clear * - hty
    cases m
    case br | addi | cmpi | limr => rfl
    all_goals cases hty
  · intro h'
    cases h'.symm.trans hty
  · rw [if_neg hthird]
    rfl
  · rw [printedFor, hops, Printed.immediate, decodeInsn_imreg_imm8 priv pc hclass rfl hdr]
    simp only [hty, NumberStated]
    split
    · rw [BitVec.toInt_signExtend_of_le (by omega)]
      exact pair_toInt _ _
    · rw [BitVec.toInt_signExtend_of_le (by omega)]
      exact byte_toNat_eq_toInt _

theorem spr_number {n : Nat} (inst : BitVec 64) (h : getField inst 0x70 4 = n) (hn : n < 6) :
    (getFieldSpr inst).number = some ⟨16 + n, by omega⟩ := by
  unfold getFieldSpr
  rw [h]
  interval_cases n <;> rfl

theorem spr_error {n : Nat} (inst : BitVec 64) (h : getField inst 0x70 4 = n) (hn : ¬ n < 6) :
    (getFieldSpr inst).number = none := by
  unfold getFieldSpr
  rw [h]
  split <;> first | omega | rfl

theorem spr_bits (hi : Opcode) (h : 16 + (hi.extractLsb 6 4).toNat < 32) :
    spr ⟨16 + (hi.extractLsb 6 4).toNat, h⟩ = some ((hi.extractLsb 6 4).setWidth 4) := by
  have hlt : (hi.extractLsb 6 4).toNat < 8 := (hi.extractLsb 6 4).isLt
  rw [spr, if_pos (by constructor <;> simp only <;> omega)]
  simp only [Nat.add_sub_cancel_left, BitVec.ofNat_toNat]

theorem sr_field (hi : Opcode) :
    ((hi.extractLsb 6 4).setWidth 4).setWidth 3 = (hi.extractLsb 7 4).setWidth 3 := by
  apply BitVec.eq_of_getLsbD_eq
  intro i hi'
  simp only [BitVec.getLsbD_setWidth, BitVec.getLsbD_extractLsb]
  interval_cases i <;> simp

/-- Moves from and to the special registers. -/
theorem stated_spr (h : findOpcode (readInsn hi lo) = some m)
    (hty : m.entry.instType = .rspr ∨ m.entry.instType = .wspr) (hdr : dr.imflag = false) :
    (printedFor (readInsn hi lo) m).States priv (decodeInsn priv pc hi lo dr) ↔
      Stated priv m hi lo := by
  have hm : m ≠ .imm := by
    rintro rfl
    revert hty
    decide
  have hnum := unnumbered_iff priv pc h hm (by obtain h' | h' := hty <;> rw [h'] <;> decide) hdr
  have hx : m.executes priv 0 ((hi.extractLsb 6 4).setWidth 4) (hi.extractLsb 3 0) =
      m.executes priv (hi.extractLsb 9 8) (hi.extractLsb 7 4) (hi.extractLsb 3 0) := by
    have hname : m = .rspr ∨ m = .wspr := by
      revert hty
      clear * -
      cases m <;> decide
    obtain rfl | rfl := hname <;> simp only [Mnemonic.executes, sr_field hi]
  have hthird : ¬(letter hi lo = .dreg ∧ m.entry.instType = .r1R2) := by
    rintro ⟨-, h'⟩
    obtain h'' | h'' := hty <;> cases h'.symm.trans h''
  have hnot : m.entry.instType = .r1R2 →
      (hi.extractLsb 6 4).setWidth 4 = hi.extractLsb 7 4 := by
    intro h'
    obtain h'' | h'' := hty <;> cases h'.symm.trans h''
  by_cases hsr : (hi.extractLsb 6 4).toNat < 6
  · have hread : (PrintedOperand.spr (getFieldSpr (readInsn hi lo))).operand =
        some (.reg ⟨16 + (hi.extractLsb 6 4).toNat, by omega⟩) := by
      rw [PrintedOperand.operand, spr_number _ (getField_spr hi lo) hsr]
      rfl
    obtain hty | hty := hty
    · have hops : printedOperands (readInsn hi lo) m =
          [.spr (getFieldSpr (readInsn hi lo)), .reg (hi.extractLsb 3 0).toNat] := by
        simp only [printedOperands, hty, getField_r1]
      refine states_iff priv pc h hm hdr
        (f := ⟨0, (hi.extractLsb 6 4).setWidth 4, hi.extractLsb 3 0, []⟩)
        (by rw [hops]; exact read_cons hread (read_cons (operand_reg _) rfl)) ?_ hx hnot
        (if_neg hthird).symm ?_ (by rw [hty]; exact hsr)
      · simp only [Line.fields, Line.instType, hty, gpr_toNat, spr_bits]
        rfl
      · rw [printedFor, hops, Printed.immediate]
        simp only [hty]
        exact hnum
    · have hops : printedOperands (readInsn hi lo) m =
          [.reg (hi.extractLsb 3 0).toNat, .spr (getFieldSpr (readInsn hi lo))] := by
        simp only [printedOperands, hty, getField_r1]
      refine states_iff priv pc h hm hdr
        (f := ⟨0, (hi.extractLsb 6 4).setWidth 4, hi.extractLsb 3 0, []⟩)
        (by rw [hops]; exact read_cons (operand_reg _) (read_cons hread rfl)) ?_ hx hnot
        (if_neg hthird).symm ?_ (by rw [hty]; exact hsr)
      · simp only [Line.fields, Line.instType, hty, gpr_toNat, spr_bits]
        rfl
      · rw [printedFor, hops, Printed.immediate]
        simp only [hty]
        exact hnum
  · have hread : (PrintedOperand.spr (getFieldSpr (readInsn hi lo))).operand = none := by
      rw [PrintedOperand.operand, spr_error _ (getField_spr hi lo) hsr]
      rfl
    have hline : (printedFor (readInsn hi lo) m).line = none := by
      obtain hty | hty := hty
      · simp only [printedFor, Printed.line, printedOperands, hty, List.mapM_cons, hread]
        rfl
      · simp only [printedFor, Printed.line, printedOperands, hty, List.mapM_cons, hread,
          getField_r1, operand_reg]
        rfl
    apply iff_of_false
    · rw [Printed.States, hline]
      rintro ⟨h', -⟩
      cases h'
    · intro hs
      have hfs := hs.fields
      obtain hty | hty := hty <;> rw [hty] at hfs <;> exact hsr hfs

theorem shiftField_eq (low n : Nat) (h : low + n ≤ 16) {mask : BitVec 64}
    (hmask : mask = (BitVec.allOnes n).setWidth 64) :
    ((readInsn hi lo >>> low) &&& mask).toNat = (hi.extractLsb' low n).toNat := by
  rw [hmask, Bits.shift_mask, readInsn_low _ _ _ _ h, BitVec.toNat_setWidth]
  have := (hi.extractLsb' low n).isLt
  have hpow : 2 ^ n ≤ 2 ^ 64 := Nat.pow_le_pow_right (by omega) (by omega)
  exact Nat.mod_eq_of_lt (by omega)

theorem cop_fields : ∀ t : BitVec 7,
    (t.extractLsb' 5 2 = t.extractLsb' 4 2 ∧ (t.extractLsb' 3 3).setWidth 4 = t.extractLsb' 0 4) ↔
      t.getLsbD 6 = false ∧ t.extractLsb' 4 2 = 0 ∧ t.extractLsb' 0 4 = 0 ∨
      t.getLsbD 6 = true ∧ t.extractLsb' 4 2 = 3 ∧ t.extractLsb' 0 4 = 6 := by
  decide

theorem cop_fields_iff (hi : Opcode) :
    (hi.extractLsb' 9 2 = hi.extractLsb 9 8 ∧
      (hi.extractLsb' 7 3).setWidth 4 = hi.extractLsb 7 4) ↔
      hi.getLsbD 10 = false ∧ hi.extractLsb 9 8 = 0 ∧ hi.extractLsb 7 4 = 0 ∨
      hi.getLsbD 10 = true ∧ hi.extractLsb 9 8 = 3 ∧ hi.extractLsb 7 4 = 6 := by
  have h := cop_fields (hi.extractLsb' 4 7)
  have hcut : ∀ low n, low + n ≤ 7 →
      (hi.extractLsb' 4 7).extractLsb' low n = hi.extractLsb' (4 + low) n := by
    intro low n hle
    apply BitVec.eq_of_getLsbD_eq
    intro i hi'
    simp only [BitVec.getLsbD_extractLsb']
    simp [hi', show low + i < 7 by omega, Nat.add_assoc]
  have hbit : (hi.extractLsb' 4 7).getLsbD 6 = hi.getLsbD 10 := by
    rw [BitVec.getLsbD_extractLsb']
    simp
  rw [hcut 5 2 (by omega), hcut 4 2 (by omega), hcut 3 3 (by omega), hcut 0 4 (by omega),
    hbit] at h
  exact h

theorem cop_bit (h : findOpcode (readInsn hi lo) = some m) (hty : m.entry.instType = .cop) :
    m = .copr ∧ hi.getLsbD 10 = false ∨ m = .copw ∧ hi.getLsbD 10 = true := by
  have hname : m = .copr ∨ m = .copw := by
    revert hty
    clear * -
    cases m <;> decide
  have hbit : (hi.extractLsb 14 8).getLsbD 2 = hi.getLsbD 10 := by
    rw [BitVec.getLsbD_extractLsb]
    simp
  have hcov := covers_of_fits (by rintro rfl; cases hty) (fits_of_find h)
  rw [← hbit]
  generalize hi.extractLsb 14 8 = key at hcov
  obtain rfl | rfl := hname
  · exact .inl ⟨rfl, by revert key; decide⟩
  · exact .inr ⟨rfl, by revert key; decide⟩

theorem fieldsStated_cop (h : findOpcode (readInsn hi lo) = some m)
    (hty : m.entry.instType = .cop) :
    FieldsStated m hi lo m.entry.instType ↔ hi.extractLsb' 9 2 = hi.extractLsb 9 8 ∧
      (hi.extractLsb' 7 3).setWidth 4 = hi.extractLsb 7 4 := by
  rw [cop_fields_iff, hty, FieldsStated]
  obtain ⟨rfl, hbit⟩ | ⟨rfl, hbit⟩ := cop_bit h hty <;>
    simp [hbit, -BitVec.getLsbD_eq_getElem]

theorem operand_field {n : Nat} (v : BitVec n) :
    PrintedOperand.operand (.number v.toNat) = some (.imm (.constant (v.setWidth 32))) := by
  rw [PrintedOperand.operand, BitVec.ofInt_natCast, BitVec.ofNat_toNat]

/-- Coprocessor instructions. -/
theorem stated_cop (h : findOpcode (readInsn hi lo) = some m) (hty : m.entry.instType = .cop)
    (hdr : dr.imflag = false) :
    (printedFor (readInsn hi lo) m).States priv (decodeInsn priv pc hi lo dr) ↔
      Stated priv m hi lo := by
  have hm : m ≠ .imm := by
    rintro rfl
    cases hty
  have hops : printedOperands (readInsn hi lo) m =
      [.number (hi.extractLsb' 9 2).toNat, .number (hi.extractLsb' 7 3).toNat,
        .reg (hi.extractLsb 3 0).toNat] := by
    simp only [printedOperands, hty, getField_r1]
    rw [shiftField_eq 9 2 (by omega) (by decide), shiftField_eq 7 3 (by omega) (by decide)]
  have hread : (printedOperands (readInsn hi lo) m).mapM PrintedOperand.operand =
      some [.imm (.constant ((hi.extractLsb' 9 2).setWidth 32)),
        .imm (.constant ((hi.extractLsb' 7 3).setWidth 32)),
        .reg ⟨(hi.extractLsb 3 0).toNat, by omega⟩] := by
    rw [hops]
    exact read_cons (operand_field _) (read_cons (operand_field _) (read_cons (operand_reg _) rfl))
  have hf : (Line.mk m (printedSuffix (readInsn hi lo) m)
      [.imm (.constant ((hi.extractLsb' 9 2).setWidth 32)),
        .imm (.constant ((hi.extractLsb' 7 3).setWidth 32)),
        .reg ⟨(hi.extractLsb 3 0).toNat, by omega⟩]).fields =
      some ⟨hi.extractLsb' 9 2, (hi.extractLsb' 7 3).setWidth 4, hi.extractLsb 3 0, []⟩ := by
    have hguard : ((hi.extractLsb' 9 2).setWidth 32).toNat < 4 ∧
        ((hi.extractLsb' 7 3).setWidth 32).toNat < 16 := by
      rw [BitVec.toNat_setWidth, BitVec.toNat_setWidth]
      omega
    simp only [Line.fields, Line.instType, hty, gpr_toNat, guard, if_pos hguard]
    rw [BitVec.setWidth_setWidth_of_le _ (by omega), BitVec.setWidth_eq,
      BitVec.setWidth_setWidth_of_le _ (by omega)]
    rfl
  by_cases hfields : FieldsStated m hi lo m.entry.instType
  · obtain ⟨hid, hreg⟩ := (fieldsStated_cop h hty).mp hfields
    refine states_iff priv pc h hm hdr hread hf (by simp only [hid, hreg]) (fun _ => hreg) ?_ ?_
      hfields
    · rw [hty, if_neg (fun h' => nomatch h'.2)]
      rfl
    · rw [printedFor, hops, Printed.immediate, hty]
      exact unnumbered_iff priv pc h hm (by rw [hty]; exact nofun) hdr
  · refine iff_of_false (fun hs => hfields ((fieldsStated_cop h hty).mpr ?_))
      (fun hs => hfields hs.fields)
    have hcop := (apply_frame ((text_iff priv pc h hm hdr hread hf).mp hs.1)).2
    have hkept : ∀ x : Executed, (if hi.getLsbD 15 = true then
        x.extend priv lo (regaddress priv (hi.extractLsb 7 4)) else x).cop = x.cop := by
      intro x
      split
      · exact (Executed.extend_frame ..).2
      · rfl
    rw [hkept] at hcop
    obtain ⟨rfl, -⟩ | ⟨rfl, -⟩ := cop_bit h hty <;>
      · simp only [Mnemonic.executes, Option.some_inj, Prod.mk.injEq] at hcop
        exact ⟨hcop.2.1.symm, hcop.2.2.symm⟩

/-- `swi`; the table's `nop` is never found. -/
theorem stated_noargs (h : findOpcode (readInsn hi lo) = some m)
    (hty : m.entry.instType = .noargs) (hdr : dr.imflag = false) :
    (printedFor (readInsn hi lo) m).States priv (decodeInsn priv pc hi lo dr) ↔
      Stated priv m hi lo := by
  obtain rfl : m = .swi := by
    have hnop := ne_nop_of_find h
    revert hty hnop
    clear * -
    cases m <;> decide
  have hread : (printedOperands (readInsn hi lo) .swi).mapM PrintedOperand.operand = some [] := rfl
  exact states_iff priv pc h nofun hdr (f := ⟨0, 0, 0, []⟩) hread rfl rfl nofun
    (if_neg (fun h' => nomatch h'.2)).symm
    (unnumbered_iff priv pc h nofun nofun hdr) trivial

theorem executed_prefix (him : hi.getLsbD 15 = true ∧ lo.extractLsb 14 13 = 0b11#2)
    (hdr : dr.imflag = false) :
    executed (decodeInsn priv pc hi lo dr) =
      (Executed.plain .im).withCondition (opdecCondition (lo.extractLsb 11 8)) := by
  have hop : opdecOp hi lo = .im := if_pos him
  have hne : ∀ t : BitVec 3, t.extractLsb 2 1 = 0b11#2 → t ≠ 0b010#3 ∧ t ≠ 0b100#3 := by decide
  obtain ⟨hd, hi'⟩ := hne (lo.extractLsb 14 12) (by rw [← type_bits]; exact him.2)
  rw [executed_decodeInsn, decExecuted_opdec, opdec_condition, hdr, if_pos him.1]
  simp only [hop, Executed.extend, if_neg hd, if_neg hi', if_pos him.1]
  simp [opdecCase, opdecDefaults, decExecuted, hop, Executed.plain, Executed.withCondition]

/-- The 24 bits of the prefix against the twelve that are printed. -/
theorem prefix_number (hi lo : Opcode) :
    ((hi.extractLsb 11 0).toNat : Int) =
        ((BitVec.ofBool (lo.getLsbD 12) ++ lo.extractLsb 7 0 ++
          hi.extractLsb 14 0).signExtend 32).toInt ↔
      NumberStated hi lo .imm := by
  have hcut : hi.extractLsb 14 0 = hi.extractLsb 14 12 ++ hi.extractLsb 11 0 := by
    apply BitVec.eq_of_getLsbD_eq
    intro i hi'
    simp only [BitVec.getLsbD_append, BitVec.getLsbD_extractLsb]
    interval_cases i <;> simp
  have hbit : ∀ b, b = false ↔ (BitVec.ofBool b).toNat = 0 := by decide
  rw [BitVec.toInt_signExtend_of_le (by omega), BitVec.toInt_eq_toNat_cond, Bits.append_toNat,
    Bits.append_toNat, hcut, Bits.append_toNat, NumberStated, hbit, Bits.eq_zero_iff,
    Bits.eq_zero_iff]
  split <;> omega

/-- The immediate prefix. -/
theorem stated_imm (h : findOpcode (readInsn hi lo) = some .imm) (hdr : dr.imflag = false) :
    (printedFor (readInsn hi lo) .imm).States priv (decodeInsn priv pc hi lo dr) ↔
      Stated priv .imm hi lo := by
  have him := fits_imm_iff.mp (fits_of_find h)
  have hsuffix : printedSuffix (readInsn hi lo) .imm = none := if_neg fun h' => h'.2 rfl
  have hops : printedOperands (readInsn hi lo) .imm = [.number (hi.extractLsb 11 0).toNat] := by
    rw [printedOperands, hsuffix]
    exact congrArg (fun v => [PrintedOperand.number v]) (getFieldShort_imm12 hi lo)
  have hstated : Stated priv .imm hi lo ↔
      opdecCondition (lo.extractLsb 11 8) = .unconditional ∧ NumberStated hi lo .imm :=
    ⟨fun hs => ⟨hs.fields, hs.number⟩, fun hs => ⟨.inl rfl, .inl rfl, hs.2, hs.1⟩⟩
  rw [Printed.States, printedFor, hsuffix, hops, executed_prefix priv pc him hdr,
    decodeInsn_imreg_prefix priv pc him hdr, hstated, ← prefix_number]
  refine and_congr ?_ Iff.rfl
  change some (Executed.plain .im) = some _ ↔ _
  rw [Option.some_inj]
  exact ⟨fun h' => (congrArg Executed.condition h').symm, fun h' => by rw [h']; rfl⟩

end Types

/-- The text printed for an instruction, read back, against the decode registers: they agree on
exactly the stated words. -/
theorem disassembled_iff {hi lo : Opcode} {p : Printed} (priv : Bool) (pc : Word)
    {dr : DecodeRegs} (h : printInsnXtc hi lo = some p) (hdr : dr.imflag = false) :
    p.States priv (decodeInsn priv pc hi lo dr) ↔ Stated priv p.mnemonic hi lo := by
  obtain ⟨m, hm, rfl⟩ := Option.map_eq_some_iff.mp h
  cases hty : m.entry.instType with
  | r1R2 => exact stated_r1R2 priv pc hm hty hdr
  | imm =>
    obtain rfl : m = .imm := by
      revert hty
      clear * -
      cases m <;> decide
    exact stated_imm priv pc hm hdr
  | imm8R => exact stated_imm8R priv pc hm hty hdr
  | memLoad => exact stated_mem priv pc hm (.inl hty) hdr
  | memStore => exact stated_mem priv pc hm (.inr hty) hdr
  | noargs => exact stated_noargs priv pc hm hty hdr
  | cop => exact stated_cop priv pc hm hty hdr
  | rspr => exact stated_spr priv pc hm (.inl hty) hdr
  | wspr => exact stated_spr priv pc hm (.inr hty) hdr

/-- `add.cnei r2, r1, 5`. -/
theorem disassembled_add_immediate :
    printInsnXtc 0x8021 0x4105 =
        some ⟨.add, some ⟨some .ne, .immed⟩, [.reg 2, .reg 1, .number 5]⟩ ∧
      (Printed.mk .add (some ⟨some .ne, .immed⟩) [.reg 2, .reg 1, .number 5]).States true
        (decodeInsn true 0 0x8021 0x4105 decodeReset) := by
  have h : printInsnXtc 0x8021 0x4105 =
      some ⟨.add, some ⟨some .ne, .immed⟩, [.reg 2, .reg 1, .number 5]⟩ := by decide +kernel
  have hs : Stated true .add 0x8021 0x4105 :=
    ⟨.inr ⟨by decide, .inl (iff_of_false (by decide) (by simp [SetsDest]))⟩,
      .inr (iff_of_true (by decide) ⟨by decide, by decide⟩),
      fun _ => .inr ⟨by decide, by decide⟩, trivial⟩
  exact ⟨h, (disassembled_iff true 0 h rfl).mpr hs⟩

/-- `addi -1, r1`, printed as `addi 255, r1`. -/
theorem disassembled_sign_lost :
    printInsnXtc 0x5FF1 0 = some ⟨.addi, none, [.number 255, .reg 1]⟩ ∧
      ¬(Printed.mk .addi none [.number 255, .reg 1]).States true
        (decodeInsn true 0 0x5FF1 0 decodeReset) := by
  refine ⟨by decide +kernel, fun hs => absurd hs.2 ?_⟩
  decide +kernel

end Xtc.Tools
