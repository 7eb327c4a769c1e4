import Mathlib.Tactic

/-!
# Relax — narrowing and emitting a relocation, `elf32-xtc.c`

The section contents from the relocated address on are a `Location`: the byte at each offset.  A C
`long` is an `Int`, and the masks and shifts of the source act on its two's complement bits.
-/

namespace Xtc.Linker

/-- The `R_XTC_*` numbers of `include/elf/xtc.h`; an `R` at the end marks the PC-relative twin. -/
inductive Reloc
  | none | r32 | r32Pcrel
  | i8 | e8 | e8I8 | e24 | e24I8 | e24E8
  | i8R | e8R | e8I8R | e24R | e24I8R | e24E8R
  | e8Nr | e24E8Nr | e8NrR | e24E8NrR
  deriving DecidableEq, Repr

abbrev Location := Nat → BitVec 8

def Location.set (m : Location) (i : Nat) (b : BitVec 8) : Location :=
  fun j => if j = i then b else m j

def xtcRelocPcrel : Reloc → Bool
  | .e8R | .i8R | .e8I8R | .e24R | .e24I8R | .e24E8R => true
  | _ => false

def xtcFitsImm (imm : Int) (bitsize : Nat) : Bool :=
  if bitsize = 0 then imm == 0
  else decide (-(2 ^ (bitsize - 1)) ≤ imm ∧ imm < 2 ^ (bitsize - 1))

def xtcAdjustedRel (value adjust : Int) : Int :=
  if value < 0 then value + adjust else value

/-! ## Reading and writing the site -/

def xtcGet16 (m : Location) (src : Nat) : BitVec 16 := m src ++ m (src + 1)

def xtcGet32 (m : Location) (src : Nat) : BitVec 32 := xtcGet16 m src ++ xtcGet16 m (src + 2)

def xtcPut16 (value : BitVec 16) (m : Location) (dest : Nat) : Location :=
  (m.set dest (value.extractLsb 15 8)).set (dest + 1) (value.extractLsb 7 0)

/-- The four bytes of the prefix after the value has been merged into them. -/
def xtcE24Inst (inst : BitVec 32) (value : Int) : BitVec 32 :=
  let inst := inst &&& ~~~0x0FFF00FF#32
  let inst := inst ||| ((BitVec.ofInt 32 value &&& 0x7fff#32) <<< 16)
  let value := value >>> (15 : Nat)
  let inst := inst ||| (BitVec.ofInt 32 value &&& 0xff#32)
  let value := value >>> (8 : Nat)
  inst ||| ((BitVec.ofInt 32 value &&& 1#32) <<< 12)

def xtcEmitE24 (m : Location) (dest : Nat) (value : Int) : Location :=
  let inst := xtcE24Inst (xtcGet32 m dest) value
  (((m.set dest (inst.extractLsb 31 24)).set (dest + 1) (inst.extractLsb 23 16)).set
    (dest + 2) (inst.extractLsb 15 8)).set (dest + 3) (inst.extractLsb 7 0)

/-- The eight immediate bits of an instruction word, bits 11 to 4. -/
def xtcPutImm8 (m : Location) (dest : Nat) (value : Int) : Location :=
  xtcPut16 ((xtcGet16 m dest &&& 0xF00F#16) ||| ((BitVec.ofInt 16 value <<< 4) &&& 0xff0#16)) m dest

/-- The low byte of an extension word. -/
def xtcPutExt8 (m : Location) (dest : Nat) (value : Int) : Location :=
  xtcPut16 ((xtcGet16 m dest &&& 0xFF00#16) ||| (BitVec.ofInt 16 value &&& 0xff#16)) m dest

/-- `xtc_emit_relocation`; `none` is the `-1` of a value that does not fit. -/
def xtcEmitRelocation (rel : Reloc) (value : Int) (m : Location) (dest : Nat) : Option Location :=
  match rel with
  | .e24E8R | .e24E8 =>
      if !xtcFitsImm value 32 then none
      else
        let m := xtcEmitE24 m dest (value >>> (8 : Nat))
        some (xtcPutExt8 m (dest + 4 + 2) value)
  | .e24I8R | .e24I8 =>
      let m := xtcEmitE24 m dest (value >>> (8 : Nat))
      some (xtcPutImm8 m (dest + 4) value)
  | .e24R | .e24 =>
      if !xtcFitsImm value 24 then none else some (xtcEmitE24 m dest value)
  | .e8R | .e8 =>
      if !xtcFitsImm value 8 then none else some (xtcPutExt8 m (dest + 2) value)
  | .e8I8R | .e8I8 =>
      if !xtcFitsImm value 16 then none
      else
        let m := xtcPutImm8 m dest value
        some (xtcPutExt8 m (dest + 2) (value >>> (8 : Nat)))
  | .i8R | .i8 =>
      if !xtcFitsImm value 8 then none else some (xtcPutImm8 m dest value)
  | _ => some m

/-! ## Narrowing -/

def xtcCanRemoveExtension (m : Location) (loc : Nat) : Bool :=
  xtcGet16 m (loc + 2) &&& 0x2f00#16 == 0#16

/-- Move the instruction back over the prefix; the extension keeps the prefix's condition. -/
def xtcRelaxE24I8ToE8I8 (m : Location) (location : Nat) : Location :=
  let savecond := m (location + 2)
  let m := m.set (location + 2) (m (location + 4) ||| 0x80#8)
  let m := m.set (location + 3) (m (location + 5))
  let m := m.set (location + 4) ((savecond &&& 0xf#8) ||| 0x40#8)
  m.set (location + 5) 0

/-- Move the instruction forward over its extension. -/
def xtcRelaxE8I8ToI8 (m : Location) (location : Nat) : Location :=
  let m := m.set (location + 2) (m location &&& 0x7f#8)
  m.set (location + 3) (m (location + 1))

def xtcRelaxE8ToNone (m : Location) (location : Nat) : Location :=
  (m.set location 0xde#8).set (location + 1) 0xad#8

/-- The local variables of `xtc_relax_relocation`, with the bytes they act on. -/
structure Relaxation where
  rel : Reloc
  value : Int
  bytes : Nat
  mem : Location

/-- `NEW_RELOC_IF`: `some` when the narrower form is taken and the loop is to retry.  The value is
adjusted only when the form arrived at is PC-relative. -/
def newRelocIf (s : Relaxation) (bits : Nat) (newrel : Reloc) (removedbytes : Nat) (adjust : Int)
    (valueAdjust : Int) (algo : Location → Nat → Location) : Option Relaxation :=
  if xtcFitsImm (xtcAdjustedRel s.value adjust) bits then
    some { rel := newrel
           value := if xtcRelocPcrel newrel then xtcAdjustedRel s.value valueAdjust else s.value
           bytes := s.bytes + removedbytes
           mem := algo s.mem (s.bytes) }
  else none

/-- `ispcrel ? k : 0`. -/
def pcrelAdjust (rel : Reloc) (k : Int) : Int := if xtcRelocPcrel rel then k else 0

/-- One round of the `switch`: the next state when a form was narrowed, `none` when the loop ends.
The outer `none` is the `abort()` of `xtc_relax_e24_to_e8`. -/
def relaxRound (s : Relaxation) : Option (Option Relaxation) :=
  match s.rel with
  | .e24E8R => some (newRelocIf s 8 .e8R 4 (pcrelAdjust s.rel 4) 4 fun m _ => m)
  | .e24E8 => some (newRelocIf s 8 .e8 4 (pcrelAdjust s.rel 4) 4 fun m _ => m)
  | .e24I8R => some (newRelocIf s 16 .e8I8R 2 (pcrelAdjust s.rel 2) 2 xtcRelaxE24I8ToE8I8)
  | .e24I8 => some (newRelocIf s 16 .e8I8 2 (pcrelAdjust s.rel 2) 2 xtcRelaxE24I8ToE8I8)
  | .e24R | .e24 =>
      if xtcFitsImm (xtcAdjustedRel s.value (pcrelAdjust s.rel 2)) 8 then none else some none
  | .e8R | .e8 =>
      some (if xtcCanRemoveExtension s.mem s.bytes then
        newRelocIf s 0 .none 2 (pcrelAdjust s.rel 2) 0 xtcRelaxE8ToNone else none)
  | .e8I8R =>
      some (if xtcCanRemoveExtension s.mem s.bytes then
        newRelocIf s 8 .i8R 2 (pcrelAdjust s.rel 2) 2 xtcRelaxE8I8ToI8 else none)
  | .e8I8 =>
      some (if xtcCanRemoveExtension s.mem s.bytes then
        newRelocIf s 8 .i8 2 (pcrelAdjust s.rel 2) 2 xtcRelaxE8I8ToI8 else none)
  | _ => some none

/-- How many narrowings a form still has before it. -/
def Reloc.rank : Reloc → Nat
  | .e24E8R | .e24E8 | .e24I8R | .e24I8 => 2
  | .e8R | .e8 | .e8I8R | .e8I8 => 1
  | _ => 0

theorem newRelocIf_rel {s s' : Relaxation} {bits newrel removed adjust va algo}
    (h : newRelocIf s bits newrel removed adjust va algo = some s') : s'.rel = newrel := by
  unfold newRelocIf at h
  split at h
  · cases h; rfl
  · cases h

theorem relaxRound_rank {s s' : Relaxation} (h : relaxRound s = some (some s')) :
    s'.rel.rank < s.rel.rank := by
  obtain ⟨rel, value, bytes, mem⟩ := s
  cases rel <;> simp only [relaxRound, Option.some.injEq, reduceCtorEq] at h
  case e24 | e24R => split at h <;> simp at h
  case e24E8 | e24I8 | e24E8R | e24I8R => rw [newRelocIf_rel h]; simp [Reloc.rank]
  case e8 | e8R | e8I8 | e8I8R =>
    split at h
    · rw [newRelocIf_rel h]; simp [Reloc.rank]
    · cases h

def relaxLoop (s : Relaxation) : Option Relaxation :=
  match _h : relaxRound s with
  | none => none
  | some none => some s
  | some (some s') => relaxLoop s'
termination_by s.rel.rank
decreasing_by exact relaxRound_rank _h

/-- `xtc_relax_relocation`: the new form, the bytes to delete and the rewritten contents.  A value
that cannot be emitted is reported and leaves the contents as the narrowing left them. -/
def xtcRelaxRelocation (rel : Reloc) (value : Int) (location : Location) :
    Option (Reloc × Nat × Location) :=
  (relaxLoop { rel := rel, value := value, bytes := 0, mem := location }).map fun s =>
    (s.rel, s.bytes, (xtcEmitRelocation s.rel s.value s.mem s.bytes).getD s.mem)

end Xtc.Linker
