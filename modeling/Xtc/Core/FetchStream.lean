import Xtc.Core.Fetch
import Xtc.Lib.Bits
import Xtc.Lib.Run

/-!
# FetchStream — the instructions the fetch unit makes of the words of the memory

The memory is one that answers in order and keeps its last answer.  The unit runs one word ahead of
the instruction in front of the decoder, or two when that one begins in the second half of a word;
the first half of it is then in the queue.
-/

namespace Xtc

structure StreamInput where
  -- the last address that was taken is answered, if it was not before
  answers : Bool
  -- the memory stalls though it has answered
  busy : Bool
  -- the level of `read` without an answer
  xRead : Word
  freeze : Bool
  jump : Bool
  jumppriv : Bool
  jumpaddr : Word

structure Stream where
  fetch : FetchRegs
  -- the memory: the address taken last, and whether it was answered
  accepted : Option Word
  answered : Bool
  -- the last jump target, and the number of instructions taken since
  target : Word
  count : Nat

namespace Stream

variable (rom : BitVec 30 → Word) (i : StreamInput) (o : Stream)

def valid : Bool := o.accepted.isSome && (o.answered || i.answers)

def stall : Bool := o.accepted.isSome && !valid i o || i.busy

def read : Word :=
  match o.accepted with
  | some a => if valid i o then rom (a.extractLsb 31 2) else i.xRead
  | none => i.xRead

def fetchIn : FetchInput where
  stall := stall i o
  valid := valid i o
  read := read rom i o
  freeze := i.freeze
  jump := i.jump
  jumppriv := i.jumppriv
  jumpaddr := i.jumpaddr

@[simp] theorem fetchIn_stall : (fetchIn rom i o).stall = stall i o := rfl

@[simp] theorem fetchIn_valid : (fetchIn rom i o).valid = valid i o := rfl

@[simp] theorem fetchIn_read : (fetchIn rom i o).read = read rom i o := rfl

@[simp] theorem fetchIn_freeze : (fetchIn rom i o).freeze = i.freeze := rfl

@[simp] theorem fetchIn_jump : (fetchIn rom i o).jump = i.jump := rfl

@[simp] theorem fetchIn_jumpaddr : (fetchIn rom i o).jumpaddr = i.jumpaddr := rfl

def accepts : Bool :=
  Fetch.strobe (fetchIn rom i o) o.fetch && Fetch.enable (fetchIn rom i o) o.fetch && !stall i o

def fui : FetchOutput := Fetch.output (fetchIn rom i o) o.fetch

def taken : Bool := (fui rom i o).valid && !i.freeze

def jumps : Bool := decide (o.fetch.state = .running) && i.jump

def next : Stream where
  fetch := Fetch.next (fetchIn rom i o) o.fetch
  accepted := if accepts rom i o then some o.fetch.fpc else o.accepted
  answered := if accepts rom i o then false else valid i o
  target := if jumps i o then i.jumpaddr else o.target
  count := if jumps i o then 0 else if taken rom i o then o.count + 1 else o.count

/-- Reset counts as a jump. -/
def start : Stream where
  fetch := Fetch.reset
  accepted := none
  answered := false
  target := Fetch.resetaddress
  count := 0

abbrev run (inputs : Nat → StreamInput) (n : Nat) : Stream :=
  Run.states (next rom) start inputs n

/-! ## The program -/

def half (a : Word) : Opcode :=
  if a.getLsbD 1 then (rom (a.extractLsb 31 2)).extractLsb 15 0
  else (rom (a.extractLsb 31 2)).extractLsb 31 16

def size (a : Word) : Word := if (half rom a).getLsbD 15 then 4 else 2

def parse (a : Word) : Nat → Word
  | 0 => a
  | k + 1 => parse a k + size rom (parse a k)

/-- The instruction in front of the decoder is the next one of the program. -/
structure Parsed : Prop where
  pc : (fui rom i o).r.pc = parse rom o.target o.count
  high : opcodeHigh (fui rom i o) = half rom (parse rom o.target o.count)
  low : (half rom (parse rom o.target o.count)).getLsbD 15 = true →
    opcodeLow (fui rom i o) = half rom (parse rom o.target o.count + 2)

/-- The clocks that keep the unit and the memory together.  Jumps go to even addresses.  In a clock
in which the unit counts on its address being taken, the memory does not stall and the pipeline does
not freeze it. -/
@[mk_iff] structure InStep : Prop where
  even : jumps i o = true → i.jumpaddr.getLsbD 0 = false
  aligning : o.fetch.state = .aligning → valid i o = true → stall i o = false ∧ i.freeze = false
  running : o.fetch.state = .running → i.jump = false → taken rom i o = true →
    o.fetch.unaligned = false ∨ Fetch.dual (fetchIn rom i o) o.fetch = true → stall i o = false

/-! ## Addresses -/

section Place

variable (w : BitVec 30)

def place (odd : Bool) : Word := w ++ (if odd then 2#2 else 0#2)

theorem toNat_place (odd : Bool) : (place w odd).toNat = 4 * w.toNat + if odd then 2 else 0 := by
  have hadd := Nat.shiftLeft_add_eq_or_of_lt (i := 2) (b := if odd then 2 else 0)
    (by cases odd <;> decide) w.toNat
  rw [place, BitVec.toNat_append]
  cases odd <;> simp_all [Nat.shiftLeft_eq] <;> omega

theorem place_word (odd : Bool) : (place w odd).extractLsb 31 2 = w := by
  apply BitVec.eq_of_toNat_eq
  have := w.isLt
  rw [BitVec.extractLsb_toNat, toNat_place, Nat.shiftRight_eq_div_pow]
  cases odd <;> simp <;> omega

theorem place_odd (odd : Bool) : (place w odd).getLsbD 1 = odd := by
  rw [← BitVec.testBit_toNat, toNat_place, Nat.testBit_eq_decide_div_mod_eq]
  cases odd <;> simp <;> omega

theorem place_add_two : place w false + 2 = place w true := by
  apply BitVec.eq_of_toNat_eq
  have := w.isLt
  rw [BitVec.toNat_add, toNat_place, toNat_place]
  simp
  omega

theorem place_odd_add_two : place w true + 2 = place (w + 1) false := by
  apply BitVec.eq_of_toNat_eq
  have := w.isLt
  rw [BitVec.toNat_add, toNat_place, toNat_place, BitVec.toNat_add]
  simp
  omega

theorem place_add_four (odd : Bool) : place w odd + 4 = place (w + 1) odd := by
  apply BitVec.eq_of_toNat_eq
  have := w.isLt
  rw [BitVec.toNat_add, toNat_place, toNat_place, BitVec.toNat_add]
  cases odd <;> simp <;> omega

theorem eq_place (a : Word) (h : a.getLsbD 0 = false) :
    a = place (a.extractLsb 31 2) (a.getLsbD 1) := by
  apply BitVec.eq_of_toNat_eq
  have hlt := a.isLt
  rw [← BitVec.testBit_toNat, Nat.testBit_eq_decide_div_mod_eq] at h
  rw [toNat_place, BitVec.extractLsb_toNat, Nat.shiftRight_eq_div_pow,
    ← BitVec.testBit_toNat, Nat.testBit_eq_decide_div_mod_eq]
  simp at h ⊢
  split_ifs <;> omega

theorem even_append (a : Word) (h : a.getLsbD 0 = false) : a.extractLsb 31 1 ++ 0#1 = a := by
  apply BitVec.eq_of_getLsbD_eq
  intro j hj
  rw [BitVec.getLsbD_append]
  by_cases hzero : j < 1
  · have hj0 : j = 0 := by omega
    subst hj0
    simpa using h.symm
  · simp [hzero, BitVec.extractLsb, BitVec.getLsbD_extractLsb', show 1 + (j - 1) = j by omega]
    omega

end Place

variable {rom i o}

theorem half_place (w : BitVec 30) (odd : Bool) : half rom (place w odd) =
    if odd then (rom w).extractLsb 15 0 else (rom w).extractLsb 31 16 := by
  rw [half, place_odd, place_word]

/-! ## Where the unit is -/

structure Jumping (o : Stream) : Prop where
  state : o.fetch.state = .jumping
  even : o.fetch.pc.getLsbD 0 = false
  fpc : o.fetch.fpc = place (o.fetch.pc.extractLsb 31 2) false
  unaligned : o.fetch.unaligned = o.fetch.pc.getLsbD 1
  unalignedJump : o.fetch.unalignedJump = o.fetch.pc.getLsbD 1

/-- The word of the target was asked for, and its second half goes to the queue. -/
structure Aligning (o : Stream) (w : BitVec 30) : Prop where
  state : o.fetch.state = .aligning
  pc : o.fetch.pc = place w true
  fpc : o.fetch.fpc = place (w + 1) false
  unaligned : o.fetch.unaligned = true
  invertReadout : o.fetch.invertReadout = true
  unalignedJump : o.fetch.unalignedJump = false
  accepted : o.accepted = some (place w false)

structure Aligned (o : Stream) (w : BitVec 30) : Prop where
  state : o.fetch.state = .running
  pc : o.fetch.pc = place w false
  fpc : o.fetch.fpc = place (w + 1) false
  unaligned : o.fetch.unaligned = false
  invertReadout : o.fetch.invertReadout = false
  unalignedJump : o.fetch.unalignedJump = false
  accepted : o.accepted = some (place w false)

structure Unaligned (rom : BitVec 30 → Word) (o : Stream) (w : BitVec 30) : Prop where
  state : o.fetch.state = .running
  pc : o.fetch.pc = place w true
  fpc : o.fetch.fpc = place (w + 2) false
  unaligned : o.fetch.unaligned = true
  invertReadout : o.fetch.invertReadout = true
  unalignedJump : o.fetch.unalignedJump = false
  qopc : o.fetch.qopc = (rom w).extractLsb 15 0
  accepted : o.accepted = some (place (w + 1) false)

inductive Position (rom : BitVec 30 → Word) (o : Stream) : Prop
  | jumping (h : Jumping o)
  | aligning (w : BitVec 30) (h : Aligning o w)
  | aligned (w : BitVec 30) (h : Aligned o w)
  | unaligned (w : BitVec 30) (h : Unaligned rom o w)

structure Following (rom : BitVec 30 → Word) (o : Stream) : Prop where
  position : Position rom o
  pc : o.fetch.pc = parse rom o.target o.count

theorem start_following : Following rom start := by
  refine ⟨.jumping ⟨rfl, ?_, ?_, ?_, ?_⟩, rfl⟩ <;> decide

/-! ## What is in front of the decoder -/

theorem read_of_valid {a : Word} (ha : o.accepted = some a) (hv : valid i o = true) :
    read rom i o = rom (a.extractLsb 31 2) := by
  simp [read, ha, hv]

theorem stall_of_not_valid {a : Word} (ha : o.accepted = some a) (hv : valid i o = false) :
    stall i o = true := by
  simp [stall, ha, hv]

theorem opcode_halves (hi lo : Opcode) :
    (hi ++ lo : BitVec 32).extractLsb 31 16 = hi ∧ (hi ++ lo : BitVec 32).extractLsb 15 0 = lo ∧
      (hi ++ lo : BitVec 32).getLsbD 31 = hi.getLsbD 15 ∧
        (hi ++ lo : BitVec 32).getLsbD 15 = lo.getLsbD 15 := by
  refine ⟨Bits.extractLsb'_high hi lo, Bits.extractLsb'_low hi lo, ?_, ?_⟩
  · exact BitVec.getLsbD_append (x := hi) (y := lo) (i := 31)
  · exact BitVec.getLsbD_append (x := hi) (y := lo) (i := 15)

theorem Aligned.front {w : BitVec 30} (h : Aligned o w) (hv : valid i o = true) :
    opcodeHigh (fui rom i o) = half rom o.fetch.pc ∧
      opcodeLow (fui rom i o) = half rom (o.fetch.pc + 2) ∧
      Fetch.dual (fetchIn rom i o) o.fetch = (half rom o.fetch.pc).getLsbD 15 := by
  have hread : (fetchIn rom i o).read = rom w := by
    show read rom i o = _
    rw [read_of_valid h.accepted hv, place_word]
  obtain ⟨hhigh, hlow, htop, -⟩ :=
    opcode_halves ((rom w).extractLsb 31 16) ((rom w).extractLsb 15 0)
  have hopcode : Fetch.opcode (fetchIn rom i o) o.fetch =
      (rom w).extractLsb 31 16 ++ (rom w).extractLsb 15 0 := by
    rw [Fetch.opcode, h.invertReadout, hread]
    rfl
  rw [h.pc, place_add_two, half_place, half_place]
  refine ⟨?_, ?_, ?_⟩
  · simpa [opcodeHigh, fui, Fetch.output, h.unaligned, hopcode] using hhigh
  · simpa [opcodeLow, fui, Fetch.output, h.unaligned, hopcode] using hlow
  · simpa [Fetch.dual, h.unaligned, hopcode] using htop

theorem Unaligned.front {w : BitVec 30} (h : Unaligned rom o w) (hv : valid i o = true) :
    opcodeHigh (fui rom i o) = half rom o.fetch.pc ∧
      opcodeLow (fui rom i o) = half rom (o.fetch.pc + 2) ∧
      Fetch.dual (fetchIn rom i o) o.fetch = (half rom o.fetch.pc).getLsbD 15 := by
  have hread : (fetchIn rom i o).read = rom (w + 1) := by
    show read rom i o = _
    rw [read_of_valid h.accepted hv, place_word]
  obtain ⟨hhigh, hlow, -, htop⟩ :=
    opcode_halves ((rom (w + 1)).extractLsb 31 16) ((rom w).extractLsb 15 0)
  have hopcode : Fetch.opcode (fetchIn rom i o) o.fetch =
      (rom (w + 1)).extractLsb 31 16 ++ (rom w).extractLsb 15 0 := by
    rw [Fetch.opcode, h.invertReadout, h.qopc, hread]
    rfl
  rw [h.pc, place_odd_add_two, half_place, half_place]
  refine ⟨?_, ?_, ?_⟩
  · simpa [opcodeHigh, fui, Fetch.output, h.unaligned, hopcode] using hlow
  · simpa [opcodeLow, fui, Fetch.output, h.unaligned, hopcode] using hhigh
  · simpa [Fetch.dual, h.unaligned, hopcode] using htop

/-- What is taken is the next instruction of the program. -/
theorem Following.parsed (h : Following rom o) (htaken : taken rom i o = true) :
    Parsed rom i o := by
  obtain ⟨hvalid, -⟩ : (fui rom i o).valid = true ∧ i.freeze = false := by
    simpa [taken] using htaken
  have hrunning := Fetch.output_valid_running _ _ hvalid
  have hv : valid i o = true := by
    simp only [fui, Fetch.output, hrunning, Bool.and_eq_true] at hvalid
    exact hvalid.1
  have hpc : (fui rom i o).r.pc = o.fetch.pc := rfl
  have hmake : opcodeHigh (fui rom i o) = half rom o.fetch.pc ∧
      opcodeLow (fui rom i o) = half rom (o.fetch.pc + 2) := by
    cases h.position with
    | jumping h => rw [h.state] at hrunning; cases hrunning
    | aligning w h => rw [h.state] at hrunning; cases hrunning
    | aligned w h => exact ⟨(h.front hv).1, (h.front hv).2.1⟩
    | unaligned w h => exact ⟨(h.front hv).1, (h.front hv).2.1⟩
  rw [h.pc] at hmake
  exact ⟨hpc.trans h.pc, hmake.1, fun _ => hmake.2⟩

/-! ## Every clock -/

structure Runs (i : StreamInput) (o : Stream) : Prop where
  state : o.fetch.state = .running
  jump : i.jump = false
  unalignedJump : o.fetch.unalignedJump = false

theorem Runs.taken (h : Runs i o) : Stream.taken rom i o = (valid i o && !i.freeze) := by
  simp [Stream.taken, fui, Fetch.output, h.state, h.unalignedJump]

theorem Runs.fetch_next (h : Runs i o) :
    (next rom i o).fetch = Fetch.advance (fetchIn rom i o) o.fetch := by
  show Fetch.next (fetchIn rom i o) o.fetch = _
  rw [Fetch.next_running _ _ h.state, if_neg]
  simp [h.jump]

theorem Runs.target_next (h : Runs i o) : (next rom i o).target = o.target := by
  simp [next, jumps, h.jump]

theorem Runs.count_next (h : Runs i o) :
    (next rom i o).count = if Stream.taken rom i o then o.count + 1 else o.count := by
  simp [next, jumps, h.jump]

/-- Nothing is taken: the unit and the memory stay as they are. -/
theorem Runs.waits {a : Word} (h : Runs i o) (ha : o.accepted = some a)
    (hno : Stream.taken rom i o = false) :
    (next rom i o).fetch = o.fetch ∧ (next rom i o).accepted = o.accepted := by
  rw [h.taken] at hno
  have hstall : (!stall i o && !i.freeze) = false := by
    cases hv : valid i o with
    | false => simp [stall_of_not_valid ha hv]
    | true =>
      have hfreeze : i.freeze = true := by simpa [hv] using hno
      simp [hfreeze]
  constructor
  · rw [h.fetch_next, Fetch.advance]
    simp [hno, hstall, h.unalignedJump]
  · have hacc : accepts rom i o = false := by
      simp only [accepts, Fetch.enable, h.state, fetchIn_freeze, fetchIn_jump, h.jump]
      cases hs : stall i o <;> cases hf : i.freeze <;> simp_all
    simp [next, hacc]

/-- The address is taken with the instruction. -/
theorem Runs.asks (h : Runs i o) (htaken : Stream.taken rom i o = true)
    (hstall : stall i o = false)
    (hnew : o.fetch.unaligned = false ∨ Fetch.dual (fetchIn rom i o) o.fetch = true) :
    (next rom i o).accepted = some o.fetch.fpc := by
  rw [h.taken] at htaken
  obtain ⟨hv, hfreeze⟩ : valid i o = true ∧ i.freeze = false := by simpa using htaken
  have hacc : accepts rom i o = true := by
    rcases hnew with hnew | hnew <;>
      simp [accepts, Fetch.strobe, Fetch.enable, h.state, h.jump, hfreeze, hstall, hnew]
  simp [next, hacc]

/-- The word in front is read again. -/
theorem Runs.keeps (h : Runs i o) (htaken : Stream.taken rom i o = true)
    (hunaligned : o.fetch.unaligned = true) (hinvert : o.fetch.invertReadout = true)
    (hshort : Fetch.dual (fetchIn rom i o) o.fetch = false) :
    (next rom i o).accepted = o.accepted := by
  rw [h.taken] at htaken
  obtain ⟨hv, hfreeze⟩ : valid i o = true ∧ i.freeze = false := by simpa using htaken
  have hacc : accepts rom i o = false := by
    simp [accepts, Fetch.strobe, h.state, h.jump, hfreeze, hv, hunaligned, hinvert, hshort]
  simp [next, hacc]

theorem following_of_jump (hstate : o.fetch.state = .running) (hjump : i.jump = true)
    (heven : i.jumpaddr.getLsbD 0 = false) : Following rom (next rom i o) := by
  have hfetch : (next rom i o).fetch = Fetch.redirect (fetchIn rom i o) o.fetch := by
    show Fetch.next (fetchIn rom i o) o.fetch = _
    rw [Fetch.next_running _ _ hstate, if_pos]
    simp [hjump]
  have hpc : (next rom i o).fetch.pc = i.jumpaddr := by
    rw [hfetch]
    exact even_append i.jumpaddr heven
  refine ⟨.jumping ⟨?_, ?_, ?_, ?_, ?_⟩, ?_⟩
  · rw [hfetch]
    rfl
  · rw [hpc, heven]
  · rw [hpc, hfetch]
    rfl
  · rw [hpc, hfetch]
    rfl
  · rw [hpc, hfetch]
    rfl
  · rw [hpc]
    simp [next, jumps, hstate, hjump, parse]

theorem Runs.pc_next (h : Runs i o) (hpc : o.fetch.pc = parse rom o.target o.count)
    (htaken : Stream.taken rom i o = true)
    (hdual : Fetch.dual (fetchIn rom i o) o.fetch = (half rom o.fetch.pc).getLsbD 15) :
    o.fetch.pc + (if Fetch.dual (fetchIn rom i o) o.fetch then 4 else 2) =
      parse rom (next rom i o).target (next rom i o).count := by
  rw [h.target_next, h.count_next, htaken, if_pos rfl, parse, ← hpc, size, hdual]

/-- A clock of the running state in which the word in front is there. -/
structure Takes (rom : BitVec 30 → Word) (i : StreamInput) (o : Stream) : Prop
    extends Runs i o where
  valid : Stream.valid i o = true
  freeze : i.freeze = false

theorem Runs.takes (h : Runs i o) (htaken : Stream.taken rom i o = true) : Takes rom i o := by
  rw [h.taken] at htaken
  obtain ⟨hv, hfreeze⟩ : valid i o = true ∧ i.freeze = false := by simpa using htaken
  exact ⟨h, hv, hfreeze⟩

theorem Takes.going (h : Takes rom i o) :
    ((fetchIn rom i o).valid && !(fetchIn rom i o).freeze) = true := by
  simp [h.valid, h.freeze]

theorem Aligned.step_taken {w : BitVec 30} (h : Aligned o w) (hk : InStep rom i o)
    (hruns : Runs i o) (htaken : taken rom i o = true) : Position rom (next rom i o) ∧
      (next rom i o).fetch.pc =
        o.fetch.pc + (if Fetch.dual (fetchIn rom i o) o.fetch then 4 else 2) := by
  have hstall := hk.running h.state hruns.jump htaken (.inl h.unaligned)
  have hacc := hruns.asks htaken hstall (.inl h.unaligned)
  have htakes : Takes rom i o := hruns.takes htaken
  have hread : read rom i o = rom w := by rw [read_of_valid h.accepted htakes.valid, place_word]
  rw [h.fpc] at hacc
  cases hdual : Fetch.dual (fetchIn rom i o) o.fetch with
  | true =>
    have hfetch : (next rom i o).fetch = _ := hruns.fetch_next
    rw [Fetch.advance_wide htakes.going h.unalignedJump hstall hdual] at hfetch
    refine ⟨.aligned (w + 1) ⟨?_, ?_, ?_, ?_, ?_, ?_, hacc⟩, ?_⟩ <;> rw [hfetch]
    · exact h.state
    · rw [h.pc, place_add_four]
    · rw [h.fpc, place_add_four]
    · exact h.unaligned
    · exact h.invertReadout
    · rfl
  | false =>
    have hfetch : (next rom i o).fetch = _ := hruns.fetch_next
    rw [Fetch.advance_short htakes.going h.unalignedJump hstall hdual h.unaligned] at hfetch
    refine ⟨.unaligned w ⟨?_, ?_, ?_, ?_, ?_, ?_, ?_, hacc⟩, ?_⟩ <;> rw [hfetch]
    · exact h.state
    · rw [h.pc, place_add_two]
    · rw [h.fpc, place_add_four, BitVec.add_assoc]
      rfl
    · rw [fetchIn_read, hread]
    · rfl

theorem Unaligned.step_taken {w : BitVec 30} (h : Unaligned rom o w) (hk : InStep rom i o)
    (hruns : Runs i o) (htaken : taken rom i o = true) : Position rom (next rom i o) ∧
      (next rom i o).fetch.pc =
        o.fetch.pc + (if Fetch.dual (fetchIn rom i o) o.fetch then 4 else 2) := by
  have htakes : Takes rom i o := hruns.takes htaken
  have hread : read rom i o = rom (w + 1) := by
    rw [read_of_valid h.accepted htakes.valid, place_word]
  have htwo : w + 2 = w + 1 + 1 := by
    rw [BitVec.add_assoc]
    rfl
  cases hdual : Fetch.dual (fetchIn rom i o) o.fetch with
  | true =>
    have hstall := hk.running h.state hruns.jump htaken (.inr hdual)
    have hacc := hruns.asks htaken hstall (.inr hdual)
    have hfetch : (next rom i o).fetch = _ := hruns.fetch_next
    rw [Fetch.advance_wide htakes.going h.unalignedJump hstall hdual] at hfetch
    rw [h.fpc, htwo] at hacc
    refine ⟨.unaligned (w + 1) ⟨?_, ?_, ?_, ?_, ?_, ?_, ?_, hacc⟩, ?_⟩ <;> rw [hfetch]
    · exact h.state
    · rw [h.pc, place_add_four]
    · rw [h.fpc, place_add_four, BitVec.add_assoc, BitVec.add_assoc]
      rfl
    · exact h.unaligned
    · exact h.invertReadout
    · rw [fetchIn_read, hread]
    · rfl
  | false =>
    have hacc := hruns.keeps htaken h.unaligned h.invertReadout hdual
    have hfetch : (next rom i o).fetch = _ := hruns.fetch_next
    rw [Fetch.advance_queued htakes.going h.unalignedJump hdual h.unaligned h.invertReadout]
      at hfetch
    rw [h.accepted] at hacc
    refine ⟨.aligned (w + 1) ⟨?_, ?_, ?_, ?_, ?_, ?_, hacc⟩, ?_⟩ <;> rw [hfetch]
    · exact h.state
    · rw [h.pc, place_odd_add_two]
    · rw [h.fpc, htwo]
    · rfl

/-- The running state: an instruction is taken, or nothing happens. -/
theorem following_of_runs {a : Word} (h : Following rom o) (hruns : Runs i o)
    (ha : o.accepted = some a) (hposition : (next rom i o).fetch = o.fetch →
      (next rom i o).accepted = o.accepted → Position rom (next rom i o))
    (htakes : taken rom i o = true → Position rom (next rom i o) ∧ (next rom i o).fetch.pc =
      o.fetch.pc + (if Fetch.dual (fetchIn rom i o) o.fetch then 4 else 2))
    (hdual : valid i o = true →
      Fetch.dual (fetchIn rom i o) o.fetch = (half rom o.fetch.pc).getLsbD 15) :
    Following rom (next rom i o) := by
  cases htaken : taken rom i o with
  | false =>
    obtain ⟨hfetch, hacc⟩ := hruns.waits ha htaken
    refine ⟨hposition hfetch hacc, ?_⟩
    rw [hfetch, hruns.target_next, hruns.count_next, htaken]
    exact h.pc
  | true =>
    obtain ⟨hpos, hpc⟩ := htakes htaken
    have hgo : Takes rom i o := hruns.takes htaken
    exact ⟨hpos, hpc.trans (hruns.pc_next h.pc htaken (hdual hgo.valid))⟩

theorem Jumping.step (h : Jumping o) (hpc : o.fetch.pc = parse rom o.target o.count) :
    Following rom (next rom i o) := by
  have htarget : (next rom i o).target = o.target := by simp [next, jumps, h.state]
  have hcount : (next rom i o).count = o.count := by
    simp [next, jumps, h.state, taken, fui, Fetch.output]
  have hsame : (next rom i o).fetch.pc = o.fetch.pc → Position rom (next rom i o) →
      Following rom (next rom i o) := by
    intro hsame hpos
    exact ⟨hpos, by rw [hsame, htarget, hcount, hpc]⟩
  have hplace := eq_place o.fetch.pc h.even
  cases hstall : stall i o with
  | true =>
    have hacc : accepts rom i o = false := by simp [accepts, hstall]
    have hfetch : (next rom i o).fetch = o.fetch := by
      show Fetch.next (fetchIn rom i o) o.fetch = _
      simp [Fetch.next, h.state, hstall]
    refine hsame (by rw [hfetch]) (.jumping ?_)
    constructor <;> rw [hfetch]
    exacts [h.state, h.even, h.fpc, h.unaligned, h.unalignedJump]
  | false =>
    have hacc : (next rom i o).accepted = some o.fetch.fpc := by
      simp [next, accepts, Fetch.strobe, Fetch.enable, h.state, hstall]
    rw [h.fpc] at hacc
    cases hodd : o.fetch.pc.getLsbD 1 with
    | false =>
      rw [hodd] at hplace
      have hjump := h.unalignedJump.trans hodd
      have hfetch : (next rom i o).fetch = { o.fetch with
          fpc := o.fetch.fpc + 4, seq := true, invertReadout := false, state := .running } := by
        show Fetch.next (fetchIn rom i o) o.fetch = _
        simp [Fetch.next, h.state, hstall, hjump]
      refine hsame (by rw [hfetch]) (.aligned _ ⟨?_, ?_, ?_, ?_, ?_, ?_, hacc⟩) <;> rw [hfetch]
      · exact hplace
      · rw [h.fpc, place_add_four]
      · exact h.unaligned.trans hodd
      · exact hjump
    | true =>
      rw [hodd] at hplace
      have hjump := h.unalignedJump.trans hodd
      have hfetch : (next rom i o).fetch = { o.fetch with
          fpc := o.fetch.fpc + 4, seq := true, invertReadout := true, state := .aligning,
          unalignedJump := false } := by
        show Fetch.next (fetchIn rom i o) o.fetch = _
        simp [Fetch.next, h.state, hstall, hjump]
      refine hsame (by rw [hfetch]) (.aligning _ ⟨?_, ?_, ?_, ?_, ?_, ?_, hacc⟩) <;> rw [hfetch]
      · exact hplace
      · rw [h.fpc, place_add_four]
      · exact h.unaligned.trans hodd

theorem Aligning.step {w : BitVec 30} (h : Aligning o w) (hk : InStep rom i o)
    (hpc : o.fetch.pc = parse rom o.target o.count) : Following rom (next rom i o) := by
  have htarget : (next rom i o).target = o.target := by simp [next, jumps, h.state]
  have hcount : (next rom i o).count = o.count := by
    simp [next, jumps, h.state, taken, fui, Fetch.output]
  cases hv : valid i o with
  | false =>
    have hstall := stall_of_not_valid h.accepted hv
    have hacc : (next rom i o).accepted = o.accepted := by simp [next, accepts, hstall]
    have hfetch : (next rom i o).fetch = o.fetch := by
      show Fetch.next (fetchIn rom i o) o.fetch = _
      simp [Fetch.next, h.state, hv]
    refine ⟨.aligning w ?_, by rw [hfetch, htarget, hcount, hpc]⟩
    constructor
    all_goals first | rw [hfetch] | rw [hacc]
    exacts [h.state, h.pc, h.fpc, h.unaligned, h.invertReadout, h.unalignedJump, h.accepted]
  | true =>
    obtain ⟨hstall, hfreeze⟩ := hk.aligning h.state hv
    have hread : read rom i o = rom w := by rw [read_of_valid h.accepted hv, place_word]
    have hacc : (next rom i o).accepted = some o.fetch.fpc := by
      simp [next, accepts, Fetch.strobe, Fetch.enable, h.state, hstall, hfreeze]
    rw [h.fpc] at hacc
    have hfetch : (next rom i o).fetch = { o.fetch with
        qopc := (rom w).extractLsb 15 0, fpc := o.fetch.fpc + 4, seq := true,
        state := .running } := by
      show Fetch.next (fetchIn rom i o) o.fetch = _
      simp [Fetch.next, h.state, hv, hread]
    refine ⟨.unaligned w ⟨?_, ?_, ?_, ?_, ?_, ?_, ?_, hacc⟩, ?_⟩ <;> rw [hfetch]
    · exact h.pc
    · rw [h.fpc, place_add_four, BitVec.add_assoc]
      rfl
    · exact h.unaligned
    · exact h.invertReadout
    · exact h.unalignedJump
    · rw [htarget, hcount]
      exact hpc

theorem Following.step (h : Following rom o) (hk : InStep rom i o) :
    Following rom (next rom i o) := by
  have hjumps : o.fetch.state = .running → i.jump = true → Following rom (next rom i o) := by
    intro hstate hjump
    exact following_of_jump hstate hjump (hk.even (by simp [jumps, hstate, hjump]))
  cases h.position with
  | jumping hp => exact hp.step h.pc
  | aligning w hp => exact hp.step hk h.pc
  | aligned w hp =>
    cases hjump : i.jump with
    | true => exact hjumps hp.state hjump
    | false =>
      have hruns : Runs i o := ⟨hp.state, hjump, hp.unalignedJump⟩
      refine following_of_runs h hruns hp.accepted (fun hfetch hacc => .aligned w ?_)
        (hp.step_taken hk hruns) fun hv => (hp.front hv).2.2
      constructor
      all_goals first | rw [hfetch] | rw [hacc]
      exacts [hp.state, hp.pc, hp.fpc, hp.unaligned, hp.invertReadout, hp.unalignedJump,
        hp.accepted]
  | unaligned w hp =>
    cases hjump : i.jump with
    | true => exact hjumps hp.state hjump
    | false =>
      have hruns : Runs i o := ⟨hp.state, hjump, hp.unalignedJump⟩
      refine following_of_runs h hruns hp.accepted (fun hfetch hacc => .unaligned w ?_)
        (hp.step_taken hk hruns) fun hv => (hp.front hv).2.2
      constructor
      all_goals first | rw [hfetch] | rw [hacc]
      exacts [hp.state, hp.pc, hp.fpc, hp.unaligned, hp.invertReadout, hp.unalignedJump, hp.qopc,
        hp.accepted]

/-- In a run whose clocks keep the unit and the memory together, what the decoder takes is the
program, instruction after instruction from the last jump target on. -/
theorem stream_parsed (rom : BitVec 30 → Word) (inputs : Nat → StreamInput) (n : Nat)
    (hstep : ∀ k < n, InStep rom (inputs k) (run rom inputs k))
    (htaken : taken rom (inputs n) (run rom inputs n) = true) :
    Parsed rom (inputs n) (run rom inputs n) := by
  have hfollowing : Following rom (run rom inputs n) :=
    Run.invariant (Following rom) (InStep rom) start_following (fun _ _ hk h => h.step hk) n hstep
  exact hfollowing.parsed htaken

instance (rom : BitVec 30 → Word) (i : StreamInput) (o : Stream) : Decidable (InStep rom i o) :=
  decidable_of_iff _ (inStep_iff ..).symm

def mixed (w : BitVec 30) : Word := w.setWidth 16 ++ 0x8000#16

/-- A jump to the second half of a word; the pipeline freezes the unit in the clock `frozen`. -/
def secondHalf (frozen k : Nat) : StreamInput where
  answers := true
  busy := false
  xRead := 0
  freeze := k == frozen
  jump := k == 1
  jumppriv := true
  jumpaddr := 0x40000106

theorem stream_parsed_secondHalf :
    taken mixed (secondHalf 5 6) (run mixed (secondHalf 5) 6) = true ∧
      Parsed mixed (secondHalf 5 6) (run mixed (secondHalf 5) 6) :=
  ⟨by decide +kernel, stream_parsed mixed (secondHalf 5) 6 (by decide +kernel) (by decide +kernel)⟩

/-- In the aligning state the unit goes on though its address was not taken: the instruction at the
target gets its second halfword from the word of the first. -/
theorem frozen_while_aligning :
    (∀ k, (secondHalf 3 k).busy = false) ∧
      (∀ k, (secondHalf 3 k).jump = true → (run mixed (secondHalf 3) k).fetch.state = .running ∧
        (secondHalf 3 k).jumpaddr.getLsbD 0 = false) ∧
      taken mixed (secondHalf 3 4) (run mixed (secondHalf 3) 4) = true ∧
      ¬ Parsed mixed (secondHalf 3 4) (run mixed (secondHalf 3) 4) := by
  refine ⟨fun _ => rfl, ?_, by decide +kernel, ?_⟩
  · intro k hjump
    have hk : k = 1 := by simpa [secondHalf] using hjump
    subst hk
    decide +kernel
  · intro h
    exact absurd (h.low (by decide +kernel)) (by decide +kernel)

end Stream

end Xtc
