import Xtc.Core.Decode

/-!
# Fetch — the fetch unit `fetch.vhd`

A jump request is looked at in the running state only.  After one, the unit waits for the cache to
take the new address (`jumping`) and, when the target is the second halfword of a word, for that
word (`aligning`).
-/

namespace Xtc

structure FetchInput where
  stall : Bool
  valid : Bool
  read : Word
  freeze : Bool
  jump : Bool
  jumppriv : Bool
  jumpaddr : Word

namespace Fetch

section

variable (i : FetchInput) (fr : FetchRegs)

/-- The word in front of the decoder. -/
def opcode : Word :=
  i.read.extractLsb 31 16 ++ (if fr.invertReadout then fr.qopc else i.read.extractLsb 15 0)

/-- `dual`, which the decoder gives back: the instruction takes two halfwords. -/
def dual : Bool :=
  if fr.unaligned then (opcode i fr).getLsbD 15 else (opcode i fr).getLsbD 31

def realnpc : Word := fr.pc + if dual i fr then 4 else 2

def output : FetchOutput where
  r := fr
  opcode := opcode i fr
  valid :=
    match fr.state with
    | .running => i.valid && !(fr.unalignedJump && i.read.getLsbD 15)
    | .jumping | .aligning => false
  inverted := fr.unaligned
  npc := realnpc i fr

/-! What the cache sees, with `fpc` as the address and `seq`. -/

/-- The queued half was used, so the word in front is read again. -/
def strobe : Bool :=
  match fr.state with
  | .running =>
      !i.jump && !(!dual i fr && i.valid && !i.freeze && fr.unaligned && fr.invertReadout)
  | .jumping | .aligning => true

def enable : Bool :=
  match fr.state with
  | .running => !i.jump && !i.freeze
  | .jumping => true
  | .aligning => !i.freeze

def abort : Bool := decide (fr.state = .running) && i.jump

def advance : FetchRegs :=
  let taken := i.valid && !i.freeze
  let fw := if !i.stall && !i.freeze then { fr with fpc := fr.fpc + 4 } else fr
  let fw := if taken && !(fr.unalignedJump && dual i fr) then
    { fw with pc := realnpc i fr, seq := true } else fw
  let fw := if taken then
    { fw with qopc := i.read.extractLsb 15 0, unalignedJump := false } else fw
  if !dual i fr && taken then
    if !fr.unaligned then { fw with unaligned := true, invertReadout := true }
    else
      -- the word is read again only if it was not the queued half that was used
      { fw with
        fpc := if fr.invertReadout then fr.fpc else fw.fpc
        unaligned := false
        invertReadout := false }
  else if dual i fr && !i.freeze && fr.unalignedJump then { fw with invertReadout := true }
  else fw

def redirect : FetchRegs :=
  { fr with
    fpc := i.jumpaddr.extractLsb 31 2 ++ 0#2
    priv := i.jumppriv
    unaligned := i.jumpaddr.getLsbD 1
    seq := false
    pc := i.jumpaddr.extractLsb 31 1 ++ 0#1
    unalignedJump := i.jumpaddr.getLsbD 1
    state := .jumping }

def next : FetchRegs :=
  match fr.state with
  | .running => if i.jump then redirect i fr else advance i fr
  | .jumping =>
      if i.stall then fr
      else if fr.unalignedJump then
        { fr with fpc := fr.fpc + 4, seq := true, invertReadout := true, state := .aligning,
                  unalignedJump := false }
      else { fr with fpc := fr.fpc + 4, seq := true, invertReadout := false, state := .running }
  | .aligning =>
      if i.valid then
        { fr with qopc := i.read.extractLsb 15 0, fpc := fr.fpc + 4, seq := true,
                  state := .running }
      else fr

end

section Fields

variable (i : FetchInput) (fr : FetchRegs)

theorem advance_state : (advance i fr).state = fr.state := by
  unfold advance
  cases i.valid && !i.freeze <;> cases !i.stall && !i.freeze <;> cases dual i fr <;>
    cases fr.unaligned <;> cases fr.unalignedJump <;> cases i.freeze <;> rfl

theorem advance_priv : (advance i fr).priv = fr.priv := by
  unfold advance
  cases i.valid && !i.freeze <;> cases !i.stall && !i.freeze <;> cases dual i fr <;>
    cases fr.unaligned <;> cases fr.unalignedJump <;> cases i.freeze <;> rfl

theorem advance_seq (h : fr.seq = true) : (advance i fr).seq = true := by
  unfold advance
  cases i.valid && !i.freeze <;> cases !i.stall && !i.freeze <;> cases dual i fr <;>
    cases fr.unaligned <;> cases fr.unalignedJump <;> cases i.freeze <;> first | rfl | exact h

theorem advance_idle (h : (i.valid && !i.freeze) = false) : (advance i fr).pc = fr.pc ∧
    (advance i fr).unalignedJump = fr.unalignedJump := by
  unfold advance
  rw [h]
  cases !i.stall && !i.freeze <;> cases dual i fr && !i.freeze && fr.unalignedJump <;> simp

section Taken

variable {i fr} (htaken : (i.valid && !i.freeze) = true) (hjump : fr.unalignedJump = false)

include htaken hjump

theorem advance_wide (hstall : i.stall = false) (hdual : dual i fr = true) : advance i fr =
    { fr with fpc := fr.fpc + 4, pc := fr.pc + 4, seq := true, qopc := i.read.extractLsb 15 0,
              unalignedJump := false } := by
  obtain ⟨hvalid, hfreeze⟩ : i.valid = true ∧ i.freeze = false := by simpa using htaken
  simp [advance, hvalid, hstall, hfreeze, hjump, hdual, realnpc]

theorem advance_short (hstall : i.stall = false) (hdual : dual i fr = false)
    (haligned : fr.unaligned = false) : advance i fr =
    { fr with fpc := fr.fpc + 4, pc := fr.pc + 2, seq := true, qopc := i.read.extractLsb 15 0,
              unalignedJump := false, unaligned := true, invertReadout := true } := by
  obtain ⟨hvalid, hfreeze⟩ : i.valid = true ∧ i.freeze = false := by simpa using htaken
  simp [advance, hvalid, hstall, hfreeze, hjump, hdual, haligned, realnpc]

theorem advance_queued (hdual : dual i fr = false) (hunaligned : fr.unaligned = true)
    (hinvert : fr.invertReadout = true) : advance i fr =
    { fr with pc := fr.pc + 2, seq := true, qopc := i.read.extractLsb 15 0,
              unalignedJump := false, unaligned := false, invertReadout := false } := by
  obtain ⟨hvalid, hfreeze⟩ : i.valid = true ∧ i.freeze = false := by simpa using htaken
  cases hstall : i.stall <;>
    simp [advance, hvalid, hstall, hfreeze, hjump, hdual, hunaligned, hinvert, realnpc]

end Taken

theorem next_running (h : fr.state = .running) :
    next i fr = if i.jump then redirect i fr else advance i fr := by
  rw [next, h]

theorem next_jumping (h : fr.state = .jumping) (haligned : fr.unalignedJump = false) :
    next i fr = if i.stall then fr
      else
        { fr with fpc := fr.fpc + 4, seq := true, invertReadout := false, state := .running } := by
  simp [next, h, haligned]

theorem next_priv : (next i fr).priv =
    if fr.state = .running ∧ i.jump = true then i.jumppriv else fr.priv := by
  unfold next
  cases hs : fr.state with
  | running =>
    cases hj : i.jump with
    | true => rfl
    | false => simp [advance_priv]
  | jumping => split_ifs <;> simp_all
  | aligning => split_ifs <;> simp_all

theorem next_state_running (h : fr.state = .running) (hj : i.jump = false) :
    (next i fr).state = .running := by
  rw [next_running _ _ h, hj, if_neg Bool.false_ne_true, advance_state, h]

theorem output_valid_running (h : (output i fr).valid = true) : fr.state = .running := by
  cases hs : fr.state <;> simp_all [output]

end Fields

def resetaddress : Word := 0x40000000

/-- Every fetch register is written by reset. -/
def reset : FetchRegs where
  pc := resetaddress
  fpc := resetaddress
  state := .jumping
  unaligned := false
  unalignedJump := false
  invertReadout := false
  seq := false
  priv := true
  qopc := 0

end Fetch

end Xtc
