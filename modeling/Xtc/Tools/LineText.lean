import Xtc.Tools.Suffix
import Xtc.Tools.RegName

/-!
# LineText — `md_assemble` of `tc-xtc.c` on the text of a line

The characters of an instruction line are taken apart into the mnemonic, the suffix and the
operands, which `Line.mdAssemble` encodes; then comes the test for text that is left over.  A text
is what the memory holds from the start of the line on, and pointers are indices into it.  As in
`Line.mdAssemble`, the first diagnostic ends the model.
-/

namespace Xtc.Tools.Text

open CString (nul string)

/-! ## Operands -/

/-- `is_end_of_line` of `read.c`, with the separator of `tc-xtc.c`. -/
def isEndOfLine (c : Char) : Bool := c = nul || c = '\n' || c = ';'

inductive LineError
  | cantFindOpcode | unknownOpcode
  | suffix (e : SuffixError)
  | reg (e : RegError)
  | expression | missingOperand
  | gotoff | got | plt
  /-- `*atp = 0` with `atp == NULL` -/
  | nullWrite
  | line (d : Diagnostic)

/-- What the function `expression` of `gas` can leave in `X_op`. -/
inductive Exp
  | absent
  | expr (e : Expr)
  | other

/-- `expression` at a text: the expression and the characters it takes, or an error of its own. -/
abbrev Expression := List Char → Option (Exp × Nat)

def skip (s : List Char) : Nat := (s.takeWhile isSpace).length

def ofAsm {α : Type} : Asm α → Except LineError α := Except.mapError .line

def takeReg (s : List Char) : Except LineError (Fin 32 × Nat) :=
  let p := parseReg s
  match p.errors with
  | [] => .ok (p.reg, p.next)
  | e :: _ => .error (.reg e)

/-- `parse_exp` and the tests that `parse_imm` makes on its result. -/
def parseExp (expression : Expression) (s : List Char) (min max : Int) :
    Except LineError (Expr × Nat) :=
  match expression (s.drop (skip s)) with
  | none => .error .expression
  | some (.absent, _) => .error .missingOperand
  | some (.other, _) => .error (.line .constantOrLabel)
  | some (.expr e, n) => do
    let (e, _) ← ofAsm (Tools.parseImm min max [.imm e])
    return (e, skip s + n)

/-- `parse_imm`; a `@` before the end of the line never leads further. -/
def parseImm (expression : Expression) (s : List Char) (min max : Int) :
    Except LineError (Expr × Nat) :=
  let atp := s.dropWhile fun c => c ≠ '@' && !isEndOfLine c
  if charAt atp 0 = '@' then
    -- five characters of GOTOFF are compared
    if "GOTOF".toList.isPrefixOf (atp.drop 1) then .error .gotoff
    else if "GOT".toList.isPrefixOf (atp.drop 1) then .error .got
    else if "PLT".toList.isPrefixOf (atp.drop 1) then .error .plt
    else .error .nullWrite
  else parseExp expression s min max

def parseMemory (expression : Expression) (s : List Char) :
    Except LineError (Fin 32 × Option Expr × Nat) := do
  let n := skip s
  if charAt s n ≠ '(' then throw (.line .memoryExpected)
  let n := n + 1
  let (reg, m) ← takeReg (s.drop n)
  let n := n + m
  if checkGprReg reg = false then throw (.line .onlyGpr)
  let n := n + skip (s.drop n)
  if charAt s n = ')' then return (reg, none, n + 1)
  let (e, m) ← parseImm expression (s.drop n) minImm maxImm
  let n := n + m
  let n := n + skip (s.drop n)
  if charAt s n = ')' then return (reg, some e, n + 1)
  throw (.line .memoryExpected)

section Steps

variable (expression : Expression) (text : List Char)

/-- `if (strcmp (op_end, "")) op_end = parse_reg (op_end + 1, ..)`. -/
def nextReg (opEnd : Nat) : Except LineError (Fin 32 × Nat) := do
  if charAt text opEnd = nul then throw (.line .statement)
  let (reg, n) ← takeReg (text.drop (opEnd + 1))
  return (reg, opEnd + 1 + n)

/-- `if (strcmp (op_end, "")) op_end = parse_imm (op_end + 1, ..)`. -/
def nextImm (opEnd : Nat) (min max : Int) : Except LineError (Expr × Nat) := do
  if charAt text opEnd = nul then throw (.line .statement)
  let (e, n) ← parseImm expression (text.drop (opEnd + 1)) min max
  return (e, opEnd + 1 + n)

/-- `op_end = parse_memory (op_end + 1, ..)`, at the end of the line as well. -/
def nextMemory (opEnd : Nat) : Except LineError (Fin 32 × Option Expr × Nat) := do
  let (reg, disp, n) ← parseMemory expression (text.drop (opEnd + 1))
  return (reg, disp, opEnd + 1 + n)

/-- The `switch (opcode->inst_type)` as far as it reads the line. -/
def readOperands (l : Line) (opEnd : Nat) : Except LineError (List Operand × Nat) := do
  match l.instType with
  | .rspr =>
    let (reg2, opEnd) ← nextReg text opEnd
    let (reg1, opEnd) ← nextReg text opEnd
    return ([.reg reg2, .reg reg1], opEnd)
  | .wspr =>
    let (reg1, opEnd) ← nextReg text opEnd
    let (reg2, opEnd) ← nextReg text opEnd
    return ([.reg reg1, .reg reg2], opEnd)
  | .memLoad =>
    let (reg1, disp, opEnd) ← nextMemory expression text opEnd
    let (reg2, opEnd) ← nextReg text opEnd
    return ([.mem reg1 disp, .reg reg2], opEnd)
  | .memStore =>
    let (reg2, opEnd) ← nextReg text opEnd
    let (reg1, disp, opEnd) ← nextMemory expression text opEnd
    return ([.reg reg2, .mem reg1 disp], opEnd)
  | .r1R2 =>
    let (reg2, opEnd) ← nextReg text opEnd
    let (reg1, opEnd) ← nextReg text opEnd
    ofAsm (requireGpr reg1)
    ofAsm (requireGpr reg2)
    match l.flags with
    | .dreg =>
      let (reg3, opEnd) ← nextReg text opEnd
      return ([.reg reg2, .reg reg1, .reg reg3], opEnd)
    | .immed =>
      let (e, opEnd) ← nextImm expression text opEnd minImm maxImm
      return ([.reg reg2, .reg reg1, .imm e], opEnd)
    | .none => return ([.reg reg2, .reg reg1], opEnd)
  | .imm8R =>
    let (e, opEnd) ← nextImm expression text opEnd minImm maxImm
    let (reg1, opEnd) ← nextReg text opEnd
    return ([.imm e, .reg reg1], opEnd)
  | .cop =>
    let (copid, opEnd) ← nextImm expression text opEnd 0 3
    if let .symbol _ := copid then throw (.line .copId)
    let (copreg, opEnd) ← nextImm expression text opEnd 0 15
    if let .symbol _ := copreg then throw (.line .copReg)
    let (reg1, opEnd) ← nextReg text opEnd
    return ([.imm copid, .imm copreg, .reg reg1], opEnd)
  | .noargs => return ([], opEnd)
  | .imm =>
    let (e, opEnd) ← nextImm expression text opEnd minImm maxImm
    return ([.imm e], opEnd)

/-! ## The line -/

def opcodeChars (s : List Char) : List Char :=
  s.takeWhile fun c => c ≠ nul && !isEndOfLine c && c ≠ ' '

/-- The array `name` has room for 19 of them; the loop then stops on the last one. -/
def nameSize : Nat := 20

def scanName (s : List Char) : List Char × Nat :=
  let name := (opcodeChars s).take (nameSize - 1)
  (name, if name.length = nameSize - 1 then name.length - 1 else name.length)

def hashFind (name : List Char) : Option Mnemonic := opcodes.find? fun m => m.name.toList == name

/-- The suffix that `parse_extension` has read. -/
def suffixOf (e : ExtStruct) : Suffix := ⟨getcc e.condition, e.flags⟩

/-- The mnemonic with its suffix, and the pointer behind them. -/
def readOpcode : Except LineError (Line × Nat) := do
  let start := skip text
  let (name, n) := scanName (text.drop start)
  if name = [] then throw .cantFindOpcode
  let opname := name.takeWhile (· ≠ '.')
  let some m := hashFind opname | throw .unknownOpcode
  if opname = name then return (⟨m, none, []⟩, start + n)
  match parseExtension (name.drop (opname.length + 1)) with
  | .ok e =>
    let l : Line := ⟨m, some (suffixOf e), []⟩
    ofAsm l.checkExtension
    return (l, start + n)
  | .error e => throw (.suffix e)

/-- The line that a text stands for, and the pointer behind its last operand. -/
def readLine : Except LineError (Line × Nat) := do
  let (l, opEnd) ← readOpcode text
  let (operands, opEnd) ← readOperands expression text l opEnd
  return ({ l with operands }, opEnd)

/-- The cases of the switch that return. -/
def returns (l : Line) : Bool :=
  l.instType = .imm8R ||
    l.operands.any fun
      | .mem _ (some _) => true
      | _ => false

def checkRest (l : Line) (opEnd : Nat) : Except LineError Unit :=
  let rest := string ((text.drop opEnd).dropWhile isSpace)
  if rest ≠ l.mnemonic.name.toList ∧ rest ≠ [] then .error (.line .extraOperands) else .ok ()

def mdAssemble : Except LineError Frag := do
  let (l, opEnd) ← readLine expression text
  let frag ← ofAsm l.mdAssemble
  if returns l = false then checkRest text l opEnd
  return frag

end Steps

/-! ## Text that is left over -/

section Rest

variable {expression : Expression} {text line after : List Char} {l : Line} {opEnd : Nat}

theorem mdAssemble_eq_ok_iff {frag : Frag} (hread : readLine expression text = .ok (l, opEnd)) :
    mdAssemble expression text = .ok frag ↔
      l.mdAssemble = .ok frag ∧ (returns l = true ∨ checkRest text l opEnd = .ok ()) := by
  unfold mdAssemble
  rw [hread]
  cases hasm : l.mdAssemble with
  | error d => simp [bind, Except.bind, ofAsm, Except.mapError, hasm]
  | ok frag' =>
    cases hreturns : returns l with
    | true => simp [bind, Except.bind, ofAsm, Except.mapError, hasm, hreturns, pure, Except.pure]
    | false =>
      cases hcheck : checkRest text l opEnd <;>
        simp [bind, Except.bind, ofAsm, Except.mapError, hasm, hreturns, hcheck, pure, Except.pure]

def White (line : List Char) (opEnd : Nat) : Prop := (line.drop opEnd).all isSpace = true

/-- The test passes on no text but the name of the instruction itself. -/
theorem checkRest_eq_ok_iff (hline : nul ∉ line) (hrest : ¬White line opEnd) :
    checkRest (line ++ nul :: after) l opEnd = .ok () ↔
      (line.drop opEnd).dropWhile isSpace = l.mnemonic.name.toList := by
  have hlt : opEnd < line.length := by
    by_contra hge
    exact hrest (by rw [White, List.drop_eq_nil_of_le (by omega)]; rfl)
  have hstring : string (((line ++ nul :: after).drop opEnd).dropWhile isSpace) =
      (line.drop opEnd).dropWhile isSpace := by
    rw [List.drop_append_of_le_length (by omega), dropWhile_isSpace_append,
      CString.string_append, CString.string_nul, List.append_nil]
    intro hmem
    exact hline (List.mem_of_mem_drop ((List.dropWhile_suffix _).mem hmem))
  have hne : (line.drop opEnd).dropWhile isSpace ≠ [] := by
    intro hnil
    exact hrest (by simpa [White, List.dropWhile_eq_nil_iff] using hnil)
  rw [checkRest, hstring]
  simp [hne]

/-- A line that is assembled has white space behind its last operand. -/
def ReadsAll (expression : Expression) (line after : List Char) : Prop :=
  ∀ frag l opEnd, mdAssemble expression (line ++ nul :: after) = .ok frag →
    readLine expression (line ++ nul :: after) = .ok (l, opEnd) → White line opEnd

/-- No text is left unread exactly when a line whose operands are in order has none, or comes to
the test and does not repeat its mnemonic there. -/
theorem readsAll_iff (hline : nul ∉ line) : ReadsAll expression line after ↔
    ∀ frag l opEnd, readLine expression (line ++ nul :: after) = .ok (l, opEnd) →
      l.mdAssemble = .ok frag →
      White line opEnd ∨
        (returns l = false ∧ (line.drop opEnd).dropWhile isSpace ≠ l.mnemonic.name.toList) := by
  constructor
  · intro hall frag l opEnd hread hfrag
    by_cases hwhite : White line opEnd
    · exact Or.inl hwhite
    · have hrejected : ¬(returns l = true ∨
          (line.drop opEnd).dropWhile isSpace = l.mnemonic.name.toList) := by
        rw [← checkRest_eq_ok_iff hline hwhite]
        intro hpass
        exact hwhite (hall frag l opEnd ((mdAssemble_eq_ok_iff hread).mpr ⟨hfrag, hpass⟩) hread)
      rw [not_or, Bool.not_eq_true] at hrejected
      exact Or.inr hrejected
  · intro hcond frag l opEnd hok hread
    obtain ⟨hfrag, hpass⟩ := (mdAssemble_eq_ok_iff hread).mp hok
    rcases hcond frag l opEnd hread hfrag with hwhite | ⟨hreturns, hname⟩
    · exact hwhite
    · by_contra hwhite
      rw [checkRest_eq_ok_iff hline hwhite, hreturns] at hpass
      simp [hname] at hpass

/-- An expression parser that takes one character as the number 5. -/
def readFive : Expression := fun _ => some (.expr (.constant 5), 1)

/-- `add r1, r2` with a blank behind it is read to its end. -/
theorem readsAll_add : nul ∉ "add r1, r2 ".toList ∧ ReadsAll readFive "add r1, r2 ".toList [] := by
  have hline : nul ∉ "add r1, r2 ".toList := by decide
  refine ⟨hline, (readsAll_iff hline).mpr ?_⟩
  intro frag l opEnd hread _
  have hadd : readLine readFive ("add r1, r2 ".toList ++ [nul]) =
      .ok (⟨.add, none, [.reg 1, .reg 2]⟩, 10) := rfl
  cases hadd.symm.trans hread
  exact Or.inl (by unfold White; decide)

/-- `limr 5, r1 junk` and `nop nop` are assembled. -/
theorem unread_junk :
    ¬ReadsAll readFive "limr 5, r1 junk".toList [] ∧ ¬ReadsAll readFive "nop nop".toList [] := by
  constructor
  · intro hall
    have hwhite := hall _ ⟨.limr, none, [.imm (.constant 5), .reg 1]⟩ 10 rfl rfl
    revert hwhite
    unfold White
    decide
  · intro hall
    have hwhite := hall _ ⟨.nop, none, []⟩ 3 rfl rfl
    revert hwhite
    unfold White
    decide

end Rest

end Xtc.Tools.Text
