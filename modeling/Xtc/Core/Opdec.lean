import Xtc.Core.Package

/-!
# Opdec — the instruction decoder `opdec.vhd`

The combinational process is cut where its comments cut it: the opcode class, the ALU operation,
the default fields, the `case op is`, the immediates, and the condition and destination of an
extended instruction.  Fields the source leaves `'X'` (`memory_write`, `cop_wr`) are `false`: they
are read only together with the `memory_access` or `cop_en` that makes the source define them.
-/

namespace Xtc

/-- `supervisor & r`. -/
def regaddress (supervisor : Bool) (r : BitVec 4) : RegAddress := BitVec.cons supervisor r

def opdecMtype (opcode : Opcode) : MemoryAccess :=
  match (opcode.extractLsb 10 8).toNat with
  | 0 => .word
  | 1 => .hword
  | 2 => .byte
  | 3 => .spr
  | 4 => .wordPostinc
  | 5 => .hwordPostinc
  | 6 => .bytePostinc
  | _ => .sprPostinc

/-- The single-register and no-register group, `opcode(14 downto 12) = "011"`. -/
def opdecSingle (opcode : Opcode) : DecodedOpcode :=
  if opcode.getLsbD 11 then
    if opcode.getLsbD 10 then
      match (opcode.extractLsb 9 8).toNat with
      | 0 => .rspr
      | 2 => .wspr
      | 1 => .rdusr
      | _ => .wrusr
    else
      match (opcode.extractLsb 9 8).toNat with
      | 0 => .sextb
      | 2 => .sexts
      | _ => .abort
  else if opcode.getLsbD 10 then .jmpe else .jmp

def opdecClass (opcode : Opcode) : DecodedOpcode :=
  match (opcode.extractLsb 14 12).toNat with
  | 0 => .alu
  | 1 => if opcode.getLsbD 11 then .ld else .st
  | 2 => if opcode.getLsbD 11 then .swi else if opcode.getLsbD 10 then .copw else .copr
  | 3 => opdecSingle opcode
  | 4 => .br
  | 5 => .addi
  | 6 => .cmpi
  | _ => .limr

/-- The opcode class, with the special case of an extended opcode that is an immediate prefix. -/
def opdecOp (opcode opcodeLow : Opcode) : DecodedOpcode :=
  if opcode.getLsbD 15 ∧ opcodeLow.extractLsb 14 13 = 0b11#2 then .im else opdecClass opcode

/-- The ALU operation taken from the opcode, and whether it forces the flags. -/
def opdecAluOp (opcode : Opcode) : AluOp × Bool :=
  match (opcode.extractLsb 11 8).toNat with
  | 0 => (.add, false)
  | 1 => (.addc, false)
  | 2 => (.sub, false)
  | 3 => (.subb, false)
  | 4 => (.and, false)
  | 5 => (.or, false)
  | 6 => (.xor, false)
  | 7 => (.cmp, false)
  | 8 => (.shl, false)
  | 9 => (.srl, false)
  | 10 => (.sra, false)
  | 11 => (.mul, false)
  | 12 => (.addri, false)
  | 13 => (.not, false)
  | 14 => (.add, true)
  | _ => (.sub, true)

def opdecDefaults (opcode opcodeLow : Opcode) (supervisor : Bool) : Opdec where
  modifyGpr := false
  modifySpr := false
  aluOp := (opdecAluOp opcode).1
  opcode := opcode
  sreg1 := regaddress supervisor (opcode.extractLsb 3 0)
  sreg2 := regaddress supervisor (opcode.extractLsb 7 4)
  dreg := regaddress supervisor (opcode.extractLsb 3 0)
  modifyFlags := false
  macc := opdecMtype opcode
  memoryAccess := false
  memoryWrite := false
  rd1 := false
  rd2 := false
  regSource := .alu
  condition := .unconditional
  enableAlu := false
  imflag := false
  blocks := false
  ismult := false
  extended := opcode.getLsbD 15
  aluSource := .reg
  useCarry := false
  imm8l := opcode.extractLsb 11 4
  imm8h := opcodeLow.extractLsb 7 0
  imm24 := BitVec.ofBool (opcodeLow.getLsbD 12) ++ opcodeLow.extractLsb 7 0 ++
    opcode.extractLsb 14 0
  sr := opcode.extractLsb 6 4
  loadimm := .loadNone
  op := opdecOp opcode opcodeLow
  jump := .none
  isJump := false
  exceptReturn := false
  copEn := false
  copWr := false
  copId := opcode.extractLsb 9 8
  copReg := opcode.extractLsb 7 4
  priv := false

/-- `when O_ALU`: the operations of the table that stand for another one with a flag set. -/
def opdecAlu (supervisor forceFlags : Bool) (d : Opdec) : Opdec :=
  let d := { d with modifyGpr := true }
  let d := if d.aluOp = .cmp then
    { d with modifyFlags := true, modifyGpr := false, aluOp := .sub } else d
  let d := if forceFlags then { d with modifyFlags := true } else d
  let d := if d.aluOp = .addri then
    { d with aluSource := .immed, sreg1 := regaddress supervisor (d.opcode.extractLsb 7 4),
             aluOp := .add } else d
  let d := { d with useCarry := false }
  let d := if d.aluOp = .addc then { d with useCarry := true, aluOp := .add } else d
  let d := if d.aluOp = .subb then { d with useCarry := true, aluOp := .sub } else d
  let d := if d.aluOp = .mul then { d with ismult := true } else d
  { d with rd1 := true, rd2 := true, regSource := .alu, enableAlu := true }

/-- `case op is`: the control fields of one opcode class, and the `subloadimm` it asks for. -/
def opdecCase (op : DecodedOpcode) (supervisor forceFlags : Bool) (d : Opdec) :
    Opdec × LoadImm :=
  match op with
  | .im => (d, .load24)
  | .limr =>
      ({ d with rd1 := true, rd2 := false, modifyGpr := true, regSource := .alu,
                aluSource := .immed, sreg1 := 0, aluOp := .add }, .load8)
  | .alu => (opdecAlu supervisor forceFlags d, .loadNone)
  | .addi =>
      ({ d with aluSource := .immed, aluOp := .add, rd1 := true, rd2 := false, modifyGpr := true,
                regSource := .alu, enableAlu := true }, .load8)
  | .addri =>
      ({ d with aluOp := .add, aluSource := .immed, rd1 := true, rd2 := true, modifyGpr := true,
                regSource := .alu, enableAlu := true }, .loadNone)
  | .rdusr =>
      ({ d with aluOp := .add, aluSource := .immed, rd1 := true, rd2 := true, modifyGpr := true,
                regSource := .alu, sreg1 := regaddress false (d.sreg1.extractLsb 3 0),
                priv := true, enableAlu := true }, .loadNone)
  | .wrusr =>
      ({ d with aluOp := .add, aluSource := .immed, rd1 := true, rd2 := true, modifyGpr := true,
                regSource := .alu, dreg := regaddress false (d.dreg.extractLsb 3 0),
                priv := true, enableAlu := true }, .loadNone)
  | .cmpi =>
      ({ d with modifyFlags := true, aluSource := .immed, aluOp := .sub, rd1 := true, rd2 := false,
                modifyGpr := false, regSource := .alu, enableAlu := true }, .load8)
  | .br =>
      ({ d with rd1 := false, rd2 := false, modifyGpr := true, regSource := .pcnext,
                isJump := true, jump := .iPcrel }, .load8)
  | .jmp =>
      ({ d with sreg1 := regaddress supervisor (d.opcode.extractLsb 7 4), rd1 := true, rd2 := false,
                modifyGpr := true, regSource := .pcnext, isJump := true, jump := .riAbs },
        .loadNone)
  | .jmpe =>
      ({ d with sreg1 := regaddress supervisor (d.opcode.extractLsb 7 4), rd1 := false,
                rd2 := false, modifyGpr := false, isJump := true, jump := .riAbs,
                exceptReturn := true }, .loadNone)
  | .copr =>
      ({ d with copEn := true, copWr := false, priv := true, rd1 := false, rd2 := false,
                modifyGpr := true, regSource := .cop }, .loadNone)
  | .copw =>
      ({ d with copEn := true, priv := true, copWr := true, rd1 := true, rd2 := false,
                modifyGpr := true, regSource := .cop }, .loadNone)
  | .st =>
      ({ d with memoryAccess := true, memoryWrite := true, rd1 := true, rd2 := true,
                loadimm := .load0 }, .loadNone)
  | .ld =>
      ({ d with memoryAccess := true, memoryWrite := false, rd1 := true, rd2 := true,
                blocks := true }, .loadNone)
  | .sextb =>
      ({ d with aluSource := .reg, aluOp := .sextb, rd1 := true, rd2 := false, modifyGpr := true,
                regSource := .alu, enableAlu := true,
                sreg1 := regaddress supervisor (d.opcode.extractLsb 7 4) }, .loadNone)
  | .sexts =>
      ({ d with aluSource := .reg, aluOp := .sexts, rd1 := true, rd2 := false, modifyGpr := true,
                regSource := .alu, enableAlu := true,
                sreg1 := regaddress supervisor (d.opcode.extractLsb 7 4) }, .loadNone)
  | .rspr =>
      ({ d with rd1 := true, rd2 := false, modifyGpr := true, regSource := .spr,
                enableAlu := true, priv := true }, .loadNone)
  | .wspr =>
      ({ d with modifySpr := true, rd1 := true, rd2 := false, modifyGpr := false,
                enableAlu := true, priv := true }, .loadNone)
  | .nop | .swi | .abort => (d, .loadNone)

/-- Which immediate the instruction loads: the extension word widens what the class asks for. -/
def opdecImmediate (opcodeLow : Opcode) (subloadimm : LoadImm) (d : Opdec) : Opdec :=
  if d.extended then
    match subloadimm with
    | .load8 =>
        if opcodeLow.extractLsb 14 13 = 0b10#2 then { d with loadimm := .load16 }
        else { d with loadimm := .load8 }
    | .load24 => { d with loadimm := .load24, imflag := true }
    | _ =>
        if opcodeLow.extractLsb 14 13 = 0b10#2 then
          { d with imm8l := d.imm8h, loadimm := .load8 }
        else { d with loadimm := .loadNone }
  else { d with loadimm := subloadimm }

def opdecCondition (nibble : BitVec 4) : Condition :=
  match nibble.toNat with
  | 0 => .unconditional
  | 1 => .ne
  | 2 => .e
  | 3 => .g
  | 4 => .ge
  | 5 => .l
  | 6 => .le
  | 7 => .ug
  | 8 => .uge
  | 9 => .ul
  | 10 => .ule
  | 11 => .s
  | 12 => .ns
  | _ => .unconditional

/-- Condition, destination and immediate operand of an extended instruction. -/
def opdecExtension (opcodeLow : Opcode) (op : DecodedOpcode) (supervisor : Bool) (d : Opdec) :
    Opdec :=
  if d.extended then
    let d := { d with condition := opdecCondition (opcodeLow.extractLsb 11 8) }
    let d := if opcodeLow.extractLsb 14 12 = 0b010#3 then
      { d with dreg := regaddress supervisor (opcodeLow.extractLsb 3 0) } else d
    if op = .alu ∧ opcodeLow.extractLsb 14 12 = 0b100#3 then
      { d with aluSource := .immed, sreg1 := regaddress supervisor (d.opcode.extractLsb 7 4) }
    else d
  else d

def opdec (opcodeHigh opcodeLow : Opcode) (priv : Bool) : Opdec :=
  let op := opdecOp opcodeHigh opcodeLow
  let d := opdecDefaults opcodeHigh opcodeLow priv
  let (d, subloadimm) := opdecCase op priv (opdecAluOp opcodeHigh).2 d
  let d := opdecImmediate opcodeLow subloadimm d
  opdecExtension opcodeLow op priv d

/-! ## What the decoder guarantees -/

/-- How the control fields of an instruction hang together: a load blocks, a memory access writes
no register by itself, and a multiply does nothing but write its product. -/
structure Opdec.WellFormed (d : Opdec) : Prop where
  blocks : d.blocks = (d.memoryAccess && !d.memoryWrite)
  memory : d.memoryAccess = true → d.modifyGpr = false ∧ d.copEn = false ∧ d.modifySpr = false
  mult : d.ismult = true → d.modifyGpr = true ∧ d.regSource = .alu ∧ d.memoryAccess = false ∧
    d.modifyFlags = false ∧ d.modifySpr = false ∧ d.isJump = false ∧ d.copEn = false

theorem opdecCase_wellFormed (op : DecodedOpcode) (hi lo : Opcode) (p : Bool) :
    (opdecCase op p (opdecAluOp hi).2 (opdecDefaults hi lo p)).1.WellFormed := by
  cases op
  case alu =>
    have hd : (opdecDefaults hi lo p).aluOp = (opdecAluOp hi).1 := rfl
    revert hd
    unfold opdecAluOp
    split <;> intro hd <;> constructor <;> simp [opdecCase, opdecAlu, hd] <;> simp [opdecDefaults]
  all_goals constructor <;> simp [opdecCase, opdecDefaults]

theorem opdecImmediate_wellFormed {d : Opdec} (h : d.WellFormed) (lo : Opcode) (sub : LoadImm) :
    (opdecImmediate lo sub d).WellFormed := by
  unfold opdecImmediate
  split
  · split
    · split <;> exact ⟨h.blocks, h.memory, h.mult⟩
    · exact ⟨h.blocks, h.memory, h.mult⟩
    · split <;> exact ⟨h.blocks, h.memory, h.mult⟩
  · exact ⟨h.blocks, h.memory, h.mult⟩

theorem opdecExtension_wellFormed {d : Opdec} (h : d.WellFormed) (lo : Opcode)
    (op : DecodedOpcode) (p : Bool) : (opdecExtension lo op p d).WellFormed := by
  unfold opdecExtension
  split
  · dsimp only
    split <;> split <;> exact ⟨h.blocks, h.memory, h.mult⟩
  · exact h

theorem opdec_wellFormed (hi lo : Opcode) (p : Bool) : (opdec hi lo p).WellFormed :=
  opdecExtension_wellFormed
    (opdecImmediate_wellFormed (opdecCase_wellFormed (opdecOp hi lo) hi lo p) lo _) lo _ p

/-- The instructions that name registers of both banks: `limr`, and the two that move between the
banks. -/
def DecodedOpcode.crossesBank : DecodedOpcode → Bool
  | .limr | .rdusr | .wrusr => true
  | _ => false

structure Opdec.Banked (p : Bool) (d : Opdec) : Prop where
  sreg1 : d.sreg1.getLsbD 4 = p
  sreg2 : d.sreg2.getLsbD 4 = p
  dreg : d.dreg.getLsbD 4 = p

theorem regaddress_bank (p : Bool) (r : BitVec 4) : (regaddress p r).getLsbD 4 = p := by
  simp [regaddress, BitVec.getElem_cons]

theorem opdecCase_banked {op : DecodedOpcode} (h : op.crossesBank = false) (hi lo : Opcode)
    (p : Bool) : (opdecCase op p (opdecAluOp hi).2 (opdecDefaults hi lo p)).1.Banked p := by
  cases op
  case limr | rdusr | wrusr => cases h
  case alu =>
    have hd : (opdecDefaults hi lo p).aluOp = (opdecAluOp hi).1 := rfl
    revert hd
    unfold opdecAluOp
    split <;> intro hd <;> constructor <;>
      simp [opdecCase, opdecAlu, hd, -BitVec.getLsbD_eq_getElem] <;>
      simp [opdecDefaults, regaddress_bank, -BitVec.getLsbD_eq_getElem]
  all_goals
    constructor <;> simp [opdecCase, opdecDefaults, regaddress_bank, -BitVec.getLsbD_eq_getElem]

theorem opdecImmediate_banked {d : Opdec} {p : Bool} (h : d.Banked p) (lo : Opcode)
    (sub : LoadImm) : (opdecImmediate lo sub d).Banked p := by
  unfold opdecImmediate
  split
  · split
    · split <;> exact ⟨h.sreg1, h.sreg2, h.dreg⟩
    · exact ⟨h.sreg1, h.sreg2, h.dreg⟩
    · split <;> exact ⟨h.sreg1, h.sreg2, h.dreg⟩
  · exact ⟨h.sreg1, h.sreg2, h.dreg⟩

theorem opdecExtension_banked {d : Opdec} {p : Bool} (h : d.Banked p) (lo : Opcode)
    (op : DecodedOpcode) : (opdecExtension lo op p d).Banked p := by
  unfold opdecExtension
  split
  · by_cases hdreg : lo.extractLsb 14 12 = 0b010#3
    · by_cases halu : op = .alu ∧ lo.extractLsb 14 12 = 0b100#3
      · simp only [if_pos hdreg, if_pos halu]
        exact ⟨regaddress_bank _ _, h.sreg2, regaddress_bank _ _⟩
      · simp only [if_pos hdreg, if_neg halu]
        exact ⟨h.sreg1, h.sreg2, regaddress_bank _ _⟩
    · by_cases halu : op = .alu ∧ lo.extractLsb 14 12 = 0b100#3
      · simp only [if_neg hdreg, if_pos halu]
        exact ⟨regaddress_bank _ _, h.sreg2, h.dreg⟩
      · simp only [if_neg hdreg, if_neg halu]
        exact ⟨h.sreg1, h.sreg2, h.dreg⟩
  · exact h

theorem opdecCase_op (op : DecodedOpcode) (hi lo : Opcode) (p : Bool) :
    (opdecCase op p (opdecAluOp hi).2 (opdecDefaults hi lo p)).1.op = opdecOp hi lo := by
  cases op
  case alu =>
    have hd : (opdecDefaults hi lo p).aluOp = (opdecAluOp hi).1 := rfl
    revert hd
    unfold opdecAluOp
    split <;> intro hd <;> simp [opdecCase, opdecAlu, hd] <;> simp [opdecDefaults]
  all_goals rfl

theorem opdecImmediate_op (lo : Opcode) (sub : LoadImm) (d : Opdec) :
    (opdecImmediate lo sub d).op = d.op := by
  unfold opdecImmediate
  split
  · split
    · split <;> rfl
    · rfl
    · split <;> rfl
  · rfl

theorem opdecExtension_op (lo : Opcode) (op : DecodedOpcode) (p : Bool) (d : Opdec) :
    (opdecExtension lo op p d).op = d.op := by
  unfold opdecExtension
  split
  · dsimp only
    split <;> split <;> rfl
  · rfl

theorem opdec_op (hi lo : Opcode) (p : Bool) : (opdec hi lo p).op = opdecOp hi lo := by
  show (opdecExtension lo _ p (opdecImmediate lo _ (opdecCase _ p _ _).1)).op = _
  rw [opdecExtension_op, opdecImmediate_op, opdecCase_op]

/-- Every other instruction names registers of the bank it is fetched for. -/
theorem opdec_banked (hi lo : Opcode) (p : Bool)
    (h : (opdec hi lo p).op.crossesBank = false) : (opdec hi lo p).Banked p := by
  rw [opdec_op] at h
  exact opdecExtension_banked (opdecImmediate_banked (opdecCase_banked h hi lo p) lo _) lo _

/-- The fields that come from the instruction words alone and that `case op is` leaves alone. -/
structure Opdec.SameWords (d e : Opdec) : Prop where
  imm8l : d.imm8l = e.imm8l
  imm8h : d.imm8h = e.imm8h
  imm24 : d.imm24 = e.imm24
  extended : d.extended = e.extended
  opcode : d.opcode = e.opcode
  condition : d.condition = e.condition

theorem opdecCase_sameWords (op : DecodedOpcode) (p f : Bool) (d : Opdec) :
    (opdecCase op p f d).1.SameWords d := by
  cases op
  case alu =>
    have h : (opdecCase .alu p f d).1.imm8l = d.imm8l ∧ (opdecCase .alu p f d).1.imm8h = d.imm8h ∧
        (opdecCase .alu p f d).1.imm24 = d.imm24 ∧
        (opdecCase .alu p f d).1.extended = d.extended ∧
        (opdecCase .alu p f d).1.opcode = d.opcode ∧
        (opdecCase .alu p f d).1.condition = d.condition := by
      cases hop : d.aluOp <;> cases f <;> simp [opdecCase, opdecAlu, hop]
    exact ⟨h.1, h.2.1, h.2.2.1, h.2.2.2.1, h.2.2.2.2.1, h.2.2.2.2.2⟩
  all_goals exact ⟨rfl, rfl, rfl, rfl, rfl, rfl⟩

/-- The four classes below the immediate ones ask for no immediate. -/
theorem opdecCase_loadNone {hi : Opcode} (h : (hi.extractLsb 14 12).toNat < 4) (p f : Bool)
    (d : Opdec) : (opdecCase (opdecClass hi) p f d).2 = .loadNone := by
  unfold opdecClass
  split
  case h_1 => rfl
  case h_2 => split <;> rfl
  case h_3 => split_ifs <;> rfl
  case h_4 =>
    unfold opdecSingle
    split_ifs
    · split <;> rfl
    · split <;> rfl
    · rfl
    · rfl
  case h_8 h0 h1 h2 h3 _ _ _ =>
    have : (hi.extractLsb 14 12).toNat ≠ 0 ∧ (hi.extractLsb 14 12).toNat ≠ 1 ∧
      (hi.extractLsb 14 12).toNat ≠ 2 ∧ (hi.extractLsb 14 12).toNat ≠ 3 := ⟨h0, h1, h2, h3⟩
    omega
  all_goals omega

theorem opdecExtension_immediate (lo : Opcode) (op : DecodedOpcode) (p : Bool) (d : Opdec) :
    (opdecExtension lo op p d).loadimm = d.loadimm ∧
    (opdecExtension lo op p d).imm8l = d.imm8l ∧ (opdecExtension lo op p d).imm8h = d.imm8h ∧
    (opdecExtension lo op p d).imm24 = d.imm24 := by
  unfold opdecExtension
  dsimp only
  split_ifs <;> exact ⟨rfl, rfl, rfl, rfl⟩

end Xtc
