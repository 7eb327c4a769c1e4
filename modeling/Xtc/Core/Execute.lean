import Xtc.Core.Alu
import Xtc.Lib.Run

/-!
# Execute — the execute stage `execute.vhd`

The process is one long sequence of variable updates.  The signals it derives from its inputs come
first (condition, fault, squash, busy), then the registers in the order of the source: what every
clock does, the result of a passing instruction, the special register write, the exception return,
trap entry, and the special register value.
-/

namespace Xtc

/-- The inputs of a clock.  The `x` fields stand for the levels the source leaves undriven. -/
structure ExecuteInput where
  fdui : FetchdataOutput
  memBusy : Bool
  wbBusy : Bool
  int : Bool
  nmi : Bool
  memFault : Bool
  copData : Word
  copValid : Bool
  copFault : Bool
  trapbase : Word
  trappc : Word
  multValid : Bool
  multR : Word
  multY : Word
  xAlu : Word
  xOvf : Bool
  xJumpaddr : Word
  xSprval : Word

/-- The outcome of a condition clause; the sign conditions are not listed by the source. -/
def passesCondition (c : Condition) (psr : Word) : StdLogic :=
  match c with
  | .unconditional => .one
  | .ne => .ofBool (!psr.getLsbD 29)
  | .e => .ofBool (psr.getLsbD 29)
  | .ge => .ofBool (!psr.getLsbD 31)
  | .g => .ofBool (!psr.getLsbD 31 && !psr.getLsbD 29)
  | .le => .ofBool (psr.getLsbD 31 || psr.getLsbD 29)
  | .l => .ofBool (psr.getLsbD 31)
  | .uge => .ofBool (!psr.getLsbD 30)
  | .ug => .ofBool (!psr.getLsbD 30 && !psr.getLsbD 29)
  | .ule => .ofBool (psr.getLsbD 30 || psr.getLsbD 29)
  | .ul => .ofBool (psr.getLsbD 30)
  | .s | .ns => .unknown

namespace Execute

/-! ## Signals -/

section Signals

variable (i : ExecuteInput) (er : ExecuteRegs)

def drq : DecodeRegs := i.fdui.r.drq

def lhs : Word := if i.fdui.alufwa then er.alur else i.fdui.rr1

def rhs : Word := if i.fdui.alufwb then er.alur else i.fdui.rr2

def aluOut : AluOutput :=
  let b := if (drq i).aluSource = .reg then rhs i er else (drq i).imreg
  alu (drq i).aluOp (lhs i er) b (er.psr.getLsbD 30) (drq i).useCarry i.multR i.xAlu

def regAddImmed : Word := lhs i er + (drq i).imreg

def privFault : Bool := i.fdui.valid && (drq i).priv && !er.psr.getLsbD 0

def canInterrupt : Bool := !(privFault i er || i.copFault)

def swi : Bool := canInterrupt i er && i.fdui.valid && (drq i).decoded == .swi

def interrupt : Bool := canInterrupt i er && i.int && er.psr.getLsbD 1 && i.fdui.valid && !er.jump

def nmiTaken : Bool := i.nmi && !er.innmi

/-- `do_fault`: a trap is taken in this clock. -/
def doFault : Bool :=
  privFault i er || i.copFault || swi i er || interrupt i er || i.memFault || nmiTaken i er

/-- `fault_address`, the last assignment winning. -/
def faultAddress : BitVec 4 :=
  if nmiTaken i er then 4
  else if i.memFault then 3
  else if interrupt i er then 0
  else if swi i er then 2
  else 1

/-- `passes_condition` after a trap has cleared it. -/
def passes : StdLogic :=
  if doFault i er then .zero else passesCondition (drq i).conditionClause er.psr

def copEn : Bool := i.fdui.valid && passes i er == .one && (drq i).copEn

def busyInt : Bool := i.memBusy || (copEn i er && !i.copValid) || i.wbBusy

def processed : Bool := i.fdui.valid && !busyInt i er

/-- The instruction is processed, passes its condition and is not squashed. -/
def completes : Bool := processed i er && passes i er == .one

/-- `euo.executed`, formed before a trap clears the condition. -/
def executed : Bool :=
  processed i er && passesCondition (drq i).conditionClause er.psr == .one

def busy : Bool := busyInt i er || (i.fdui.r.hold && !i.multValid)

/-- `euo.clrreg`: a load that is not going to be made gives its scoreboard entry back. -/
def clrreg : Bool := i.fdui.valid && passes i er == .zero && (drq i).blocks

/-- `euo.jump`: towards fetch, with the delay slot in front of the stage, or after a trap. -/
def jump : Bool := (er.jump && i.fdui.valid) || er.trapq

def clrhold : Bool := i.multValid || (er.jump && i.fdui.valid) || er.trapq

def dataAccess : Bool := i.fdui.valid && passes i er != .zero && (drq i).memoryAccess

def memSprwe : Bool := i.fdui.valid && passes i er != .zero && (drq i).sprwe

def sprIndex : Nat := ((drq i).sra2.extractLsb 2 0).toNat

/-- Special register `k` is to be written from the left operand. -/
def sprSelect (k : Nat) : Bool := (drq i).sprwe && !(drq i).memoryAccess && sprIndex i == k

def sprLoad (k : Nat) : Bool := processed i er && sprSelect i k

def returns : Bool := completes i er && (drq i).isJump && (drq i).exceptReturn

end Signals

/-! ## Registers -/

/-- `psr(7 downto 0)` and `psr(31 downto 28)` come from `new`. -/
def statusLoad (old new : Word) : Word :=
  new.extractLsb 31 28 ++ old.extractLsb 27 8 ++ new.extractLsb 7 0

def statusFlags (old : Word) (sign co zero ovf : Bool) : Word :=
  BitVec.ofBool sign ++ BitVec.ofBool co ++ BitVec.ofBool zero ++ BitVec.ofBool ovf ++
    old.extractLsb 27 0

/-- The status a trap handler starts with. -/
def statusTrap (psr : Word) (fault : BitVec 4) : Word :=
  psr.extractLsb 31 8 ++ fault ++ psr.extractLsb 3 3 ++ 0b001#3

/-- The part of a status word that `rspr` reads. -/
def statusRead (psr : Word) : Word := psr.extractLsb 31 28 ++ 0#20 ++ psr.extractLsb 7 0

section Registers

variable (i : ExecuteInput) (er : ExecuteRegs)

/-- What every clock does, whatever is in front of the stage. -/
def start : ExecuteRegs :=
  { er with
    valid := i.fdui.valid
    jump := if i.fdui.valid then false else er.jump
    jumpaddr := if i.fdui.valid then i.xJumpaddr else er.jumpaddr
    regwe := i.wbBusy && er.regwe
    innmi := er.innmi || nmiTaken i er
    trapq := doFault i er }

def jumpTarget : Word :=
  match (drq i).jump with
  | .iPcrel => (drq i).imreg + (drq i).npc
  | .riAbs => regAddImmed i er
  | .riPcrel | .none => i.xJumpaddr

/-- `if passes_condition='1'` of an instruction that is processed. -/
def result (ew : ExecuteRegs) : ExecuteRegs :=
  let c := completes i er
  let d := drq i
  let a := aluOut i er
  let flags := statusFlags ew.psr a.sign a.co a.zero i.xOvf
  { ew with
    alur := if c then a.o else ew.alur
    wbIsDataAddress := if c then d.wbIsDataAddress else ew.wbIsDataAddress
    psr := if c && d.modifyFlags then flags else ew.psr
    regSource := if c then d.regSource else ew.regSource
    regwe := if c then d.regwe else ew.regwe
    dreg := if c then d.dreg else ew.dreg
    npc := if c then d.fpc else ew.npc
    jump := if c then d.isJump else ew.jump
    jumpaddr := if c then jumpTarget i er else ew.jumpaddr }

/-- The bank of the next jump and the special register write, which does not look at the
condition. -/
def sprWrite (ew : ExecuteRegs) : ExecuteRegs :=
  { ew with
    jumppriv := if processed i er then er.psr.getLsbD 0 else ew.jumppriv
    y := if sprLoad i er 0 then lhs i er else ew.y
    psr := if sprLoad i er 1 then statusLoad ew.psr (lhs i er) else ew.psr
    spsr := if sprLoad i er 2 then statusLoad ew.spsr (lhs i er) else ew.spsr
    scratch := if sprLoad i er 3 then lhs i er else ew.scratch }

/-- `if ew.jump='1' and except_return` of an instruction that is processed. -/
def exceptReturn (ew : ExecuteRegs) : ExecuteRegs :=
  let c := processed i er && ew.jump && (drq i).exceptReturn
  { ew with
    psr := if c then statusLoad ew.psr er.spsr else ew.psr
    jumpaddr := if c then i.trappc else ew.jumpaddr
    jumppriv := if c then er.spsr.getLsbD 0 else ew.jumppriv
    innmi := if c then false else ew.innmi }

def trapEntry (ew : ExecuteRegs) : ExecuteRegs :=
  let c := doFault i er
  { ew with
    jumpaddr := if c then i.trapbase.extractLsb 31 2 ++ 0#2 else ew.jumpaddr
    spsr := if c then ew.psr else ew.spsr
    psr := if c then statusTrap ew.psr (faultAddress i er) else ew.psr
    jumppriv := if c then er.psr.getLsbD 0 else ew.jumppriv }

def sprval : Word :=
  match sprIndex i with
  | 0 => er.y
  | 1 => statusRead er.psr
  | 2 => statusRead er.spsr
  | 3 => er.scratch
  | _ => i.xSprval

def next : ExecuteRegs :=
  let ew := trapEntry i er (exceptReturn i er (sprWrite i er (result i er (start i er))))
  { ew with
    sprval := sprval i er
    y := if i.multValid then i.multY else ew.y }

end Registers

/-! ## One lemma for each register -/

section Fields

variable (i : ExecuteInput) (er : ExecuteRegs)

theorem processed_valid (h : processed i er = true) : i.fdui.valid = true := by
  simp only [processed, Bool.and_eq_true] at h
  exact h.1

theorem completes_processed (h : completes i er = true) : processed i er = true := by
  simp only [completes, Bool.and_eq_true] at h
  exact h.1

theorem completes_doFault (h : completes i er = true) : doFault i er = false := by
  simp only [completes, passes, Bool.and_eq_true] at h
  cases hf : doFault i er with
  | false => rfl
  | true => simp [hf] at h

theorem next_y : (next i er).y =
    if i.multValid then i.multY else if sprLoad i er 0 then lhs i er else er.y := rfl

theorem next_scratch :
    (next i er).scratch = if sprLoad i er 3 then lhs i er else er.scratch := rfl

/-- The status before trap entry: flags, then a write, then an exception return. -/
def psrBefore : Word :=
  let a := aluOut i er
  let flags := if completes i er && (drq i).modifyFlags then
    statusFlags er.psr a.sign a.co a.zero i.xOvf else er.psr
  let written := if sprLoad i er 1 then statusLoad flags (lhs i er) else flags
  if returns i er then statusLoad written er.spsr else written

/-- The jump the exception return looks at is the one of the instruction itself: any earlier one
was cleared because the delay slot is here. -/
theorem returns_eq : (processed i er && (result i er (start i er)).jump && (drq i).exceptReturn) =
    returns i er := by
  unfold returns
  simp only [result, start]
  cases hc : completes i er with
  | true => simp [completes_processed i er hc]
  | false =>
    cases hp : processed i er with
    | true => simp [processed_valid i er hp]
    | false => simp

theorem next_psr : (next i er).psr =
    if doFault i er then statusTrap (psrBefore i er) (faultAddress i er) else psrBefore i er := by
  unfold psrBefore
  rw [← returns_eq]
  rfl

theorem next_spsr : (next i er).spsr =
    if doFault i er then psrBefore i er
    else if sprLoad i er 2 then statusLoad er.spsr (lhs i er) else er.spsr := by
  unfold psrBefore
  rw [← returns_eq]
  rfl

theorem next_jumpaddr_returns (hr : returns i er = true) : (next i er).jumpaddr = i.trappc := by
  have hf : doFault i er = false := by
    simp only [returns, Bool.and_eq_true] at hr
    exact completes_doFault i er hr.1.1
  have hjump : (next i er).jumpaddr =
      if doFault i er then i.trapbase.extractLsb 31 2 ++ 0#2
      else if processed i er && (result i er (start i er)).jump && (drq i).exceptReturn then
        i.trappc
      else (sprWrite i er (result i er (start i er))).jumpaddr := rfl
  rw [hjump, returns_eq, hf, hr]
  rfl

theorem next_jumppriv : (next i er).jumppriv =
    if doFault i er then er.psr.getLsbD 0
    else if returns i er then er.spsr.getLsbD 0
    else if processed i er then er.psr.getLsbD 0 else er.jumppriv := by
  rw [← returns_eq]
  rfl

end Fields

structure Reset (er : ExecuteRegs) : Prop where
  psr : er.psr = 1
  jump : er.jump = false
  jumppriv : er.jumppriv = true
  regwe : er.regwe = false
  valid : er.valid = false
  trapq : er.trapq = false
  innmi : er.innmi = false

/-- Registers out of reset, with zero in what reset does not write. -/
def reset : ExecuteRegs :=
  { valid := false, wbIsDataAddress := false, psr := 1, spsr := 0, alur := 0, dreg := 0
    regwe := false, regSource := .alu, jump := false, jumppriv := true, jumpaddr := 0
    scratch := 0, y := 0, npc := 0, sprval := 0, trapq := false, innmi := false }

end Execute

end Xtc
