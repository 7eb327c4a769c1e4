import Xtc.Linker.Relax
import Mathlib.Data.BitVec

/-!
# Value — the value of a relocation, while relaxing and in the final link

`xtc_elf_relax_section` and `xtc_elf_relocate_section` each compute the value of a relocation on
their own.  Addresses are `bfd_vma`, unsigned numbers that wrap: all either function does with them
is add and subtract, so they are taken from any commutative ring.
-/

namespace Xtc.Linker

/-- Where a section lies in the output: `output_section->vma` and `output_offset`. -/
structure Placement (V : Type) where
  vma : V
  outputOffset : V

/-- A section a local symbol is defined in.  For one of type `SEC_INFO_TYPE_MERGE`, `merge` is
`_bfd_merged_section_offset`: the section and offset that an offset was merged to. -/
structure SymbolSection (V : Type) where
  place : Placement V
  merge : Option (V → Placement V × V)

inductive Symbol (V : Type)
  | ofLocal (isSection : Bool) (stValue : V) (sec : SymbolSection V)
  | ofGlobal (value : V) (place : Placement V)

section Vma

variable {V : Type} [CommRing V]

def Placement.address (p : Placement V) : V := p.vma + p.outputOffset

/-- `xtc_reloc_pcrel_offset`; `none` is its `abort()`. -/
def xtcRelocPcrelOffset : Reloc → Option V
  | .e8R => some 2
  | .i8R => some 2
  | .e8I8R => some 4
  | .e24R => some 4
  | .e24I8R => some 6
  | .e24E8R => some 6
  | _ => none

/-! ## While relaxing -/

/-- The symbol's address as `xtc_elf_relax_section` gets it: the addend of a section symbol goes
into the offset that is looked up in a merged section. -/
def relaxSymval (addend : V) : Symbol V → V
  | .ofLocal isSection stValue sec =>
      let symval := if isSection then stValue + addend else stValue
      let (place, symval) := match sec.merge with
        | some merge => merge symval
        | none => (sec.place, symval)
      symval + (place.vma + place.outputOffset)
  | .ofGlobal value place => value + place.vma + place.outputOffset

/-- The value handed to `xtc_relax_relocation` for a relocation at `rOffset` of section `sec`. -/
def relaxValue (rel : Reloc) (sym : Symbol V) (addend rOffset : V) (sec : Placement V) :
    Option V :=
  let symval := relaxSymval addend sym
  if xtcRelocPcrel rel then do
    let offset ← xtcRelocPcrelOffset rel
    return symval + addend - (rOffset + offset + sec.vma + sec.outputOffset)
  else
    return symval + addend

/-! ## In the final link -/

/-- What `elf_link_input_bfd` makes of a symbol before it calls the backend: a local symbol of a
merged section is moved to where its offset was merged to, unless it is the section's own. -/
def linkInput : Symbol V → Symbol V
  | .ofLocal isSection stValue sec =>
      match isSection, sec.merge with
      | false, some merge =>
          .ofLocal false (merge stValue).2 { place := (merge stValue).1, merge := none }
      | _, _ => .ofLocal isSection stValue sec
  | .ofGlobal value place => .ofGlobal value place

def xtcGetRelocationValue : Symbol V → V
  | .ofLocal _ stValue sec => sec.place.vma + sec.place.outputOffset + stValue
  | .ofGlobal value place => value + place.vma + place.outputOffset

/-- The relocation types whose site `xtc_elf_relocate_section` fills in. -/
def Reloc.isFilled : Reloc → Bool
  | .i8R | .e8R | .e8I8R | .e24R | .e24I8R | .e24E8R => true
  | .i8 | .e8 | .e8I8 | .e24 | .e24I8 | .e24E8 => true
  | _ => false

/-- The value handed to `xtc_emit_relocation`, for the types that are. -/
def relocateValue (rel : Reloc) (sym : Symbol V) (addend rOffset : V) (sec : Placement V) :
    Option V :=
  let relocation := xtcGetRelocationValue (linkInput sym)
  if !rel.isFilled then none
  else if xtcRelocPcrel rel then do
    let reserved ← xtcRelocPcrelOffset rel
    let physAddr := relocation + addend
    let physAddr := physAddr - (sec.vma + sec.outputOffset)
    let physAddr := physAddr - rOffset
    let physAddr := physAddr + addend
    return physAddr - reserved
  else
    let physAddr := relocation + addend
    return physAddr - 0

/-! ## The value meant -/

def Symbol.finalAddress : Symbol V → V
  | .ofLocal false stValue ⟨_, some merge⟩ => (merge stValue).1.address + (merge stValue).2
  | .ofLocal _ stValue sec => sec.place.address + stValue
  | .ofGlobal value place => place.address + value

/-- `S + A`, counted from the end of the site where the form is PC-relative. -/
def meantValue (rel : Reloc) (sym : Symbol V) (addend rOffset : V) (sec : Placement V) : V :=
  if xtcRelocPcrel rel then
    sym.finalAddress + addend - (sec.address + rOffset + (xtcRelocPcrelOffset rel).getD 0)
  else sym.finalAddress + addend

/-- What relaxing needs of a symbol.  The addend of a section symbol is counted twice, and a section
symbol is looked up among merged data where the final link does not. -/
def Symbol.Sound (addend : V) : Symbol V → Prop
  | .ofLocal true _ ⟨_, none⟩ => addend = 0
  | .ofLocal true stValue ⟨place, some merge⟩ =>
      (merge (stValue + addend)).1.address + (merge (stValue + addend)).2 =
        place.address + stValue
  | _ => True

/-- What the final link needs of a relocation: the addend of a PC-relative form is counted twice. -/
def Reloc.Sound (addend : V) (rel : Reloc) : Prop := xtcRelocPcrel rel = true → addend = 0

variable {rel : Reloc} {sym : Symbol V} {addend rOffset : V} {sec : Placement V}

theorem xtcGetRelocationValue_linkInput (sym : Symbol V) :
    xtcGetRelocationValue (linkInput sym) = sym.finalAddress := by
  cases sym with
  | ofGlobal value place =>
    simp only [linkInput, xtcGetRelocationValue, Symbol.finalAddress, Placement.address]
    ring
  | ofLocal isSection stValue sec =>
    obtain ⟨place, _ | merge⟩ := sec <;> cases isSection <;> rfl

theorem xtcRelocPcrelOffset_of_pcrel (h : xtcRelocPcrel rel = true) :
    xtcRelocPcrelOffset rel = some ((xtcRelocPcrelOffset rel).getD (0 : V)) := by
  cases rel <;> first | rfl | cases h

theorem relocateValue_eq (h : rel.isFilled = true) :
    relocateValue rel sym addend rOffset sec =
      some (meantValue rel sym addend rOffset sec + if xtcRelocPcrel rel then addend else 0) := by
  rw [relocateValue, meantValue, xtcGetRelocationValue_linkInput, h]
  cases hp : xtcRelocPcrel rel with
  | false => simp
  | true =>
    rw [xtcRelocPcrelOffset_of_pcrel hp]
    simp only [Bool.not_true, Bool.false_eq_true, if_false, if_true, Option.bind_eq_bind,
      Option.bind_some, Option.getD_some, Option.pure_def, Placement.address]
    congr 1
    ring

theorem relaxValue_eq :
    relaxValue rel sym addend rOffset sec =
      some (meantValue rel sym addend rOffset sec +
        (relaxSymval addend sym - sym.finalAddress)) := by
  rw [relaxValue, meantValue]
  cases hp : xtcRelocPcrel rel with
  | false =>
    simp only [Bool.false_eq_true, if_false, Option.pure_def]
    congr 1
    ring
  | true =>
    rw [xtcRelocPcrelOffset_of_pcrel hp]
    simp only [if_true, Option.bind_eq_bind, Option.bind_some, Option.getD_some, Option.pure_def,
      Placement.address]
    congr 1
    ring

/-- Only a section symbol is taken for another address while relaxing. -/
theorem relaxSymval_eq_iff : relaxSymval addend sym - sym.finalAddress = 0 ↔ sym.Sound addend := by
  cases sym with
  | ofGlobal value place =>
    simp only [relaxSymval, Symbol.finalAddress, Symbol.Sound, Placement.address, iff_true]
    ring
  | ofLocal isSection stValue sec =>
    obtain ⟨place, _ | merge⟩ := sec <;> cases isSection <;>
      simp only [relaxSymval, Symbol.finalAddress, Symbol.Sound, Placement.address, if_true,
        Bool.false_eq_true, if_false, iff_true]
    · ring
    · rw [show stValue + addend + (place.vma + place.outputOffset) -
        (place.vma + place.outputOffset + stValue) = addend by ring]
    · ring
    · rw [sub_eq_zero, add_comm]

/-- Both computations give the value meant exactly where neither counts the addend twice nor looks
a section symbol up elsewhere. -/
theorem values_agree_iff (h : rel.isFilled = true) (sym : Symbol V) (addend rOffset : V)
    (sec : Placement V) :
    (relaxValue rel sym addend rOffset sec = some (meantValue rel sym addend rOffset sec) ∧
      relocateValue rel sym addend rOffset sec = some (meantValue rel sym addend rOffset sec)) ↔
    sym.Sound addend ∧ rel.Sound addend := by
  rw [relaxValue_eq, relocateValue_eq h, Option.some.injEq, Option.some.injEq, add_eq_left,
    add_eq_left, relaxSymval_eq_iff]
  simp [Reloc.Sound]

end Vma

/-! ## Addresses of 64 bits -/

def codePlace : Placement (BitVec 64) := ⟨0x1000, 0⟩

/-- A label 0x40 bytes into the section, and the symbol of the section itself. -/
def loopLabel : Symbol (BitVec 64) := .ofLocal false 0x40 ⟨codePlace, none⟩

def codeSymbol : Symbol (BitVec 64) := .ofLocal true 0 ⟨codePlace, none⟩

/-- `br loop` at offset 8. -/
theorem values_agree_loop :
    relaxValue .e24I8R loopLabel 0 8 codePlace = some 0x32 ∧
      relocateValue .e24I8R loopLabel 0 8 codePlace = some 0x32 := by
  have hfilled : Reloc.e24I8R.isFilled = true := rfl
  exact (values_agree_iff hfilled loopLabel 0 8 codePlace).mpr ⟨trivial, fun _ => rfl⟩

/-- `br loop + 4` is linked eight bytes past the label, and `limr .text + 4` is relaxed for eight
bytes past the start of the section. -/
theorem addend_counted_twice :
    (relocateValue .e24I8R loopLabel 4 8 codePlace = some 0x3A ∧
      meantValue .e24I8R loopLabel 4 8 codePlace = 0x36 ∧
      ¬ (relaxValue .e24I8R loopLabel 4 8 codePlace =
            some (meantValue .e24I8R loopLabel 4 8 codePlace) ∧
          relocateValue .e24I8R loopLabel 4 8 codePlace =
            some (meantValue .e24I8R loopLabel 4 8 codePlace))) ∧
    (relaxValue .e24I8 codeSymbol 4 8 codePlace = some 0x1008 ∧
      meantValue .e24I8 codeSymbol 4 8 codePlace = 0x1004 ∧
      ¬ (relaxValue .e24I8 codeSymbol 4 8 codePlace =
            some (meantValue .e24I8 codeSymbol 4 8 codePlace) ∧
          relocateValue .e24I8 codeSymbol 4 8 codePlace =
            some (meantValue .e24I8 codeSymbol 4 8 codePlace))) := by
  decide

end Xtc.Linker
