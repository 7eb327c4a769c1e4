import Xtc.Core.FetchStream
import Xtc.Core.Processor

/-!
# ControlFlow — the instructions execute processes are those of the program

The pipeline in front of an instruction memory that answers in order.  Between two clocks the
instruction in front of execute, the one in decode and the one the fetch unit is at follow each
other; or a jump has been made whose delay slot still waits, and the fetch unit is at its target.
-/

namespace Xtc

/-- The program counter of the instruction set: the instruction at `pc` is in the delay slot of a
jump to `target`, if there is one. -/
structure Isa where
  pc : Word
  target : Option Word

def Isa.step (rom : BitVec 30 → Word) (jump : Option Word) (a : Isa) : Isa where
  pc := a.target.getD (a.pc + Stream.size rom a.pc)
  target := jump

structure FlowInput where
  -- the instruction memory
  answers : Bool
  busy : Bool
  xRead : Word
  -- everything behind the fetch unit
  env : BackendInput

structure Flow where
  stream : Stream
  core : Backend
  isa : Isa

namespace Flow

section Signals

variable (rom : BitVec 30 → Word) (i : FlowInput) (s : Flow)

def streamIn : StreamInput where
  answers := i.answers
  busy := i.busy
  xRead := i.xRead
  freeze := Backend.freezeDecoder i.env s.core
  jump := Backend.jump i.env s.core
  jumppriv := s.core.er.jumppriv
  jumpaddr := s.core.er.jumpaddr

def proc : Processor := ⟨s.stream.fetch, s.core⟩

def procIn : ProcessorInput where
  stall := Stream.stall (streamIn i s) s.stream
  valid := Stream.valid (streamIn i s) s.stream
  read := Stream.read rom (streamIn i s) s.stream
  env := i.env

def processed : Bool := Processor.processed (procIn rom i s) (proc s)

/-- A multiply that is held is processed in more clocks than one, and leaves in the last. -/
def leaves : Bool := s.core.fdr.drq.valid && !Processor.executeBusy (procIn rom i s) (proc s)

def ex : ExecuteInput := Processor.ex (procIn rom i s) (proc s)

def jumpsTo : Option Word :=
  if Execute.completes (ex rom i s) s.core.er && s.core.fdr.drq.isJump then
    some (Execute.jumpTarget (ex rom i s) s.core.er)
  else none

def next : Flow where
  stream := Stream.next rom (streamIn i s) s.stream
  core := (Processor.next (procIn rom i s) (proc s)).back
  isa := if leaves rom i s then s.isa.step rom (jumpsTo rom i s) else s.isa

theorem proc_next : proc (next rom i s) = Processor.next (procIn rom i s) (proc s) := rfl

/-- The clocks in which the program is followed: the fetch unit keeps in step with the memory, and
the `hold` of a multiply goes to a multiply.  The rest is what is asked of the run and of the
program: no trap, no exception return, and no jump in a delay slot. -/
@[mk_iff] structure Steady : Prop where
  inStep : Stream.InStep rom (streamIn i s) s.stream
  mult : Backend.misheld i.env s.core = false
  trap : Backend.trap i.env s.core = false
  exceptReturn : s.core.fdr.drq.valid = true → s.core.fdr.drq.exceptReturn = false
  slot : s.isa.target ≠ none → s.core.fdr.drq.valid = true → s.core.fdr.drq.isJump = false

instance : Decidable (Steady rom i s) :=
  decidable_of_iff _ (steady_iff ..).symm

end Signals

abbrev run (rom : BitVec 30 → Word) (s₀ : Flow) (inputs : Nat → FlowInput) (n : Nat) : Flow :=
  Run.states (next rom) s₀ inputs n

structure Reset (s : Flow) : Prop where
  stream : s.stream = Stream.start
  core : s.core.Reset
  isa : s.isa = ⟨Fetch.resetaddress, none⟩

/-! ## What the stages hold -/

/-- The instruction at `a`, decoded. -/
structure Carries (rom : BitVec 30 → Word) (d : DecodeRegs) (a : Word) : Prop where
  pc : d.pc = a
  high : d.opcode = Stream.half rom a
  low : (Stream.half rom a).getLsbD 15 = true → d.opcodeLow = Stream.half rom (a + 2)
  isJump : ∃ priv, d.isJump = (opdec d.opcode d.opcodeLow priv).isJump

def after (rom : BitVec 30 → Word) (valid : Bool) (a : Word) : Word :=
  if valid then a + Stream.size rom a else a

/-- The stages follow each other; a jump waits for its delay slot to arrive. -/
structure Straight (rom : BitVec 30 → Word) (s : Flow) : Prop where
  drq : s.core.fdr.drq.valid = true → Carries rom s.core.fdr.drq s.isa.pc
  dr : s.core.dr.valid = true → Carries rom s.core.dr (after rom s.core.fdr.drq.valid s.isa.pc)
  fetch : s.stream.fetch.pc =
    after rom s.core.dr.valid (after rom s.core.fdr.drq.valid s.isa.pc)
  running : s.core.fdr.drq.valid = true ∨ s.core.dr.valid = true →
    s.stream.fetch.state = .running
  target : s.isa.target = if s.core.er.jump then some s.core.er.jumpaddr else none

/-- The fetch unit is at the target, and the delay slot is still in front of execute. -/
structure Turned (rom : BitVec 30 → Word) (s : Flow) : Prop where
  valid : s.core.fdr.drq.valid = true
  drq : Carries rom s.core.fdr.drq s.isa.pc
  dr : s.core.dr.valid = false
  jump : s.core.er.jump = false
  target : s.isa.target = some s.stream.fetch.pc

structure Follows (rom : BitVec 30 → Word) (s : Flow) : Prop where
  stream : Stream.Following rom s.stream
  orderly : s.core.Orderly
  trapq : s.core.er.trapq = false
  stages : Straight rom s ∨ Turned rom s

theorem Reset.follows {rom : BitVec 30 → Word} {s : Flow} (h : Reset s) : Follows rom s where
  stream := by
    rw [h.stream]
    exact Stream.start_following
  orderly := h.core.orderly
  trapq := h.core.er.trapq
  stages := by
    have hdr : s.core.dr.valid = false := by
      obtain ⟨dr, hdr⟩ := h.core.dr
      rw [hdr]
      rfl
    have hdrq := h.core.fdr.valid
    left
    constructor
    · simp [hdrq]
    · simp [hdr]
    · rw [h.stream, hdr, hdrq, h.isa]
      rfl
    · simp [hdr, hdrq]
    · rw [h.isa, h.core.er.jump]
      rfl

/-! ## A clock of each stage -/

section Clock

variable {rom : BitVec 30 → Word} {i : FlowInput} {s : Flow}

theorem carries_frozen {fui : FetchOutput} {d : DecodeRegs} {a : Word} (h : Carries rom d a) :
    Carries rom (decodeNext fui true false d) a := by
  have hframe : decodeNext fui true false d =
      { d with copId := (decodeDec fui).copId, copReg := (decodeDec fui).copReg } := by
    simp [decodeNext]
  rw [hframe]
  exact ⟨h.pc, h.high, h.low, h.isJump⟩

theorem carries_taken {o : Stream} {j : StreamInput} {d : DecodeRegs}
    (h : Stream.Following rom o) (hvalid : (Stream.fui rom j o).valid = true)
    (hfreeze : j.freeze = false) :
    Carries rom (decodeNext (Stream.fui rom j o) false false d) o.fetch.pc := by
  have hparsed : Stream.Parsed rom j o := h.parsed (by simp [Stream.taken, hvalid, hfreeze])
  rw [h.pc]
  constructor
  · simpa [decodeNext, hvalid, decodeLoad] using hparsed.pc
  · simpa [decodeNext, hvalid, decodeLoad] using hparsed.high
  · simpa [decodeNext, hvalid, decodeLoad] using hparsed.low
  · exact ⟨(Stream.fui rom j o).r.priv, by simp [decodeNext, hvalid, decodeLoad, decodeDec]⟩

theorem fetch_next {o : Stream} {j : StreamInput} (h : Stream.Following rom o)
    (hk : Stream.InStep rom j o) :
    (Stream.next rom j o).fetch.pc =
      if Stream.jumps j o then j.jumpaddr
      else after rom (Stream.taken rom j o) o.fetch.pc := by
  rw [(h.step hk).pc]
  by_cases hjumps : Stream.jumps j o = true
  · simp [Stream.next, hjumps, Stream.parse]
  · by_cases htaken : Stream.taken rom j o = true
    · simp [Stream.next, hjumps, htaken, Stream.parse, after, h.pc]
    · simp [Stream.next, hjumps, htaken, after, h.pc]

theorem state_next {o : Stream} {j : StreamInput} (hstate : o.fetch.state = .running)
    (hjump : j.jump = false) : (Stream.next rom j o).fetch.state = .running :=
  Fetch.next_state_running _ _ hstate hjump

theorem jumps_eq {o : Stream} {j : StreamInput} (hstate : o.fetch.state = .running) :
    Stream.jumps j o = j.jump := by
  simp [Stream.jumps, hstate]

theorem jump_eq (htrapq : s.core.er.trapq = false) :
    Backend.jump i.env s.core = (s.core.er.jump && s.core.fdr.drq.valid) := by
  show ((s.core.er.jump && s.core.fdr.drq.valid) || s.core.er.trapq) = _
  rw [htrapq, Bool.or_false]

theorem jump_next : (next rom i s).core.er.jump =
    if Execute.completes (ex rom i s) s.core.er then s.core.fdr.drq.isJump
    else if s.core.fdr.drq.valid then false else s.core.er.jump := rfl

theorem jumpaddr_next (hk : Steady rom i s) : (next rom i s).core.er.jumpaddr =
    if Execute.completes (ex rom i s) s.core.er then Execute.jumpTarget (ex rom i s) s.core.er
    else if s.core.fdr.drq.valid then i.env.xJumpaddr else s.core.er.jumpaddr := by
  have hfault : Execute.doFault (ex rom i s) s.core.er = false := hk.trap
  have hreturn : (Execute.processed (ex rom i s) s.core.er &&
      (Execute.result (ex rom i s) s.core.er (Execute.start (ex rom i s) s.core.er)).jump &&
      s.core.fdr.drq.exceptReturn) = false := by
    by_cases hv : s.core.fdr.drq.valid = true
    · rw [hk.exceptReturn hv, Bool.and_false]
    · have hprocessed : Execute.processed (ex rom i s) s.core.er = false := by
        have hv' : (ex rom i s).fdui.valid = false := (Bool.not_eq_true _).mp hv
        simp [Execute.processed, hv']
      rw [hprocessed, Bool.false_and, Bool.false_and]
  have hjump : (next rom i s).core.er.jumpaddr =
      if Execute.doFault (ex rom i s) s.core.er then
        i.env.trapbase.extractLsb 31 2 ++ 0#2
      else if Execute.processed (ex rom i s) s.core.er &&
          (Execute.result (ex rom i s) s.core.er (Execute.start (ex rom i s) s.core.er)).jump &&
          s.core.fdr.drq.exceptReturn then i.env.trappc
      else if Execute.completes (ex rom i s) s.core.er then
        Execute.jumpTarget (ex rom i s) s.core.er
      else if s.core.fdr.drq.valid then i.env.xJumpaddr else s.core.er.jumpaddr := rfl
  rw [hjump, hfault, hreturn]
  rfl

variable (rom) in
theorem drq_stays (hbusy : Backend.executeBusy i.env s.core = true) :
    (next rom i s).core.fdr.drq = s.core.fdr.drq := by
  have hdrq := Processor.fdr_drq_next (procIn rom i s) (proc s)
  exact hdrq.trans (if_pos hbusy)

theorem drq_moves (hk : Steady rom i s) (hbusy : Backend.executeBusy i.env s.core = false) :
    (next rom i s).core.fdr.drq =
      { s.core.dr with
        valid :=
          s.core.dr.valid && !Backend.jump i.env s.core && Backend.allvalid i.env s.core } := by
  have hdrq := Processor.fdr_drq_next (procIn rom i s) (proc s)
  have htrap : Processor.trap (procIn rom i s) (proc s) = false := hk.trap
  rw [htrap, Bool.or_false] at hdrq
  refine hdrq.trans (if_neg ?_)
  show ¬ Backend.executeBusy i.env s.core = true
  simp [hbusy]

theorem dr_flushed (hjump : Backend.jump i.env s.core = true) :
    (next rom i s).core.dr.valid = false := by
  have hdr := Processor.dr_valid_next (procIn rom i s) (proc s)
  exact hdr.trans (if_pos hjump)

variable (rom) in
theorem dr_valid_frozen (hjump : Backend.jump i.env s.core = false)
    (hfreeze : Backend.freezeDecoder i.env s.core = true) :
    (next rom i s).core.dr.valid = s.core.dr.valid := by
  have hdr : (next rom i s).core.dr.valid = _ :=
    Processor.dr_valid_next (procIn rom i s) (proc s)
  rw [hdr, if_neg (by show ¬ Backend.jump i.env s.core = true; simp [hjump])]
  exact if_pos hfreeze

theorem dr_frozen {a : Word} (hjump : Backend.jump i.env s.core = false)
    (hfreeze : Backend.freezeDecoder i.env s.core = true) (h : Carries rom s.core.dr a) :
    Carries rom (next rom i s).core.dr a := by
  show Carries rom (decodeNext (Stream.fui rom (streamIn i s) s.stream)
    (Backend.freezeDecoder i.env s.core) (Backend.jump i.env s.core) s.core.dr) a
  rw [hjump, hfreeze]
  exact carries_frozen h

variable (rom) in
theorem dr_valid_taken (hjump : Backend.jump i.env s.core = false)
    (hfreeze : Backend.freezeDecoder i.env s.core = false) :
    (next rom i s).core.dr.valid = Stream.taken rom (streamIn i s) s.stream := by
  have hdr : (next rom i s).core.dr.valid = _ :=
    Processor.dr_valid_next (procIn rom i s) (proc s)
  rw [hdr, if_neg (by show ¬ Backend.jump i.env s.core = true; simp [hjump]),
    if_neg (by show ¬ Backend.freezeDecoder i.env s.core = true; simp [hfreeze])]
  show (Stream.fui rom (streamIn i s) s.stream).valid = _
  simp [Stream.taken, streamIn, hfreeze]

theorem dr_taken (h : Stream.Following rom s.stream)
    (hjump : Backend.jump i.env s.core = false)
    (hfreeze : Backend.freezeDecoder i.env s.core = false)
    (htaken : Stream.taken rom (streamIn i s) s.stream = true) :
    Carries rom (next rom i s).core.dr s.stream.fetch.pc := by
  show Carries rom (decodeNext (Stream.fui rom (streamIn i s) s.stream)
    (Backend.freezeDecoder i.env s.core) (Backend.jump i.env s.core) s.core.dr) _
  rw [hjump, hfreeze]
  apply carries_taken h
  · simp only [Stream.taken, Bool.and_eq_true] at htaken
    exact htaken.1
  · exact hfreeze

theorem frozen_of_busy (hbusy : Backend.executeBusy i.env s.core = true) :
    Backend.freezeDecoder i.env s.core = true := by
  simp [Backend.freezeDecoder, hbusy]

variable (rom) in
theorem leaves_eq (busy : Bool) (hbusy : Backend.executeBusy i.env s.core = busy) :
    leaves rom i s = (s.core.fdr.drq.valid && !busy) := by
  show (s.core.fdr.drq.valid && !Backend.executeBusy i.env s.core) = _
  rw [hbusy]

theorem isa_stays (hleaves : leaves rom i s = false) : (next rom i s).isa = s.isa := by
  simp [next, hleaves]

theorem isa_moves (hleaves : leaves rom i s = true) :
    (next rom i s).isa = s.isa.step rom (jumpsTo rom i s) := by
  simp [next, hleaves]

theorem completes_valid (h : Execute.completes (ex rom i s) s.core.er = true) :
    s.core.fdr.drq.valid = true :=
  Execute.processed_valid _ _ (Execute.completes_processed _ _ h)

theorem jump_held (horderly : s.core.Orderly) (hbusy : Backend.executeBusy i.env s.core = true) :
    (next rom i s).core.er.jump = if s.core.fdr.drq.valid then false else s.core.er.jump := by
  rw [jump_next]
  by_cases hc : Execute.completes (ex rom i s) s.core.er = true
  · obtain ⟨hmult, hwf⟩ := horderly.held hbusy (Execute.completes_processed _ _ hc)
    rw [if_pos hc, (hwf.mult hmult).2.2.2.2.2.1, if_pos (completes_valid hc)]
  · rw [if_neg hc]

variable (rom) in
theorem jump_slot (hv : s.core.fdr.drq.valid = true) (hjump : s.core.fdr.drq.isJump = false) :
    (next rom i s).core.er.jump = false ∧ jumpsTo rom i s = none := by
  constructor
  · rw [jump_next, hjump, if_pos hv, ite_self]
  · simp [jumpsTo, hjump]

theorem taken_frozen (hfreeze : Backend.freezeDecoder i.env s.core = true) :
    Stream.taken rom (streamIn i s) s.stream = false := by
  simp [Stream.taken, streamIn, hfreeze]

theorem fetch_stays (h : Follows rom s) (hk : Steady rom i s)
    (hjump : Backend.jump i.env s.core = false)
    (hfreeze : Backend.freezeDecoder i.env s.core = true) :
    (next rom i s).stream.fetch.pc = s.stream.fetch.pc := by
  have hpc := fetch_next h.stream hk.inStep
  have hjumps : Stream.jumps (streamIn i s) s.stream = false := by
    simp [Stream.jumps, streamIn, hjump]
  rw [hjumps, taken_frozen hfreeze] at hpc
  exact hpc

theorem fetch_advances (h : Follows rom s) (hk : Steady rom i s)
    (hjump : Backend.jump i.env s.core = false) :
    (next rom i s).stream.fetch.pc =
      after rom (Stream.taken rom (streamIn i s) s.stream) s.stream.fetch.pc := by
  have hpc := fetch_next h.stream hk.inStep
  have hjumps : Stream.jumps (streamIn i s) s.stream = false := by
    simp [Stream.jumps, streamIn, hjump]
  rw [hjumps] at hpc
  exact hpc

theorem fetch_turns (h : Follows rom s) (hk : Steady rom i s)
    (hstate : s.stream.fetch.state = .running) (hjump : Backend.jump i.env s.core = true) :
    (next rom i s).stream.fetch.pc = s.core.er.jumpaddr := by
  have hpc := fetch_next h.stream hk.inStep
  rw [jumps_eq hstate, if_pos (show (streamIn i s).jump = true from hjump)] at hpc
  exact hpc

/-! ### Straight on -/

section Straight

variable (h : Follows rom s) (hs : Straight rom s) (hk : Steady rom i s)

include h hs hk

theorem Straight.waits (hbusy : Backend.executeBusy i.env s.core = true)
    (hjump : Backend.jump i.env s.core = false) : Straight rom (next rom i s) := by
  have hfreeze := frozen_of_busy hbusy
  have hisa := isa_stays (leaves_eq rom true hbusy ▸ Bool.and_false _)
  have hdrq := drq_stays rom hbusy
  have hdr := dr_valid_frozen rom hjump hfreeze
  constructor
  · rw [hdrq, hisa]
    exact hs.drq
  · rw [hdr, hdrq, hisa]
    exact fun hv => dr_frozen hjump hfreeze (hs.dr hv)
  · rw [fetch_stays h hk hjump hfreeze, hdr, hdrq, hisa]
    exact hs.fetch
  · rw [hdr, hdrq]
    exact fun hv => state_next (hs.running hv) hjump
  · -- the jump waits as long as nothing is in front of execute
    rw [jump_eq h.trapq] at hjump
    rw [hisa, hs.target, jump_held h.orderly hbusy, jumpaddr_next hk]
    by_cases hv : s.core.fdr.drq.valid = true
    · have hnone : s.core.er.jump = false := by simpa [hv] using hjump
      rw [if_pos hv, hnone]
      rfl
    · have hc : ¬ Execute.completes (ex rom i s) s.core.er = true :=
        fun hc => hv (completes_valid hc)
      rw [if_neg hv, if_neg hc, if_neg hv]

/-- The delay slot is held: the fetch unit goes ahead. -/
theorem Straight.turns (hbusy : Backend.executeBusy i.env s.core = true)
    (hjump : Backend.jump i.env s.core = true) : Turned rom (next rom i s) := by
  have hboth := hjump
  rw [jump_eq h.trapq, Bool.and_eq_true] at hboth
  obtain ⟨herjump, hv⟩ := hboth
  have hisa := isa_stays (leaves_eq rom true hbusy ▸ Bool.and_false _)
  have hdrq := drq_stays rom hbusy
  constructor
  · rw [hdrq]
    exact hv
  · rw [hdrq, hisa]
    exact hs.drq hv
  · exact dr_flushed hjump
  · rw [jump_held h.orderly hbusy, if_pos hv]
  · rw [fetch_turns h hk (hs.running (.inl hv)) hjump, hisa, hs.target, if_pos herjump]

/-- The delay slot leaves, and everything behind it is dropped. -/
theorem Straight.jumps (hbusy : Backend.executeBusy i.env s.core = false)
    (hjump : Backend.jump i.env s.core = true) : Straight rom (next rom i s) := by
  have hboth := hjump
  rw [jump_eq h.trapq, Bool.and_eq_true] at hboth
  obtain ⟨herjump, hv⟩ := hboth
  have htarget : s.isa.target = some s.core.er.jumpaddr := by rw [hs.target, if_pos herjump]
  have hslot := hk.slot (by simp [htarget]) hv
  obtain ⟨hnone, hto⟩ := jump_slot rom (i := i) hv hslot
  have hisa := isa_moves (by rw [leaves_eq rom false hbusy, hv]; rfl)
  have hdrq : (next rom i s).core.fdr.drq.valid = false := by
    rw [drq_moves hk hbusy, hjump]
    simp
  have hdr : (next rom i s).core.dr.valid = false := dr_flushed hjump
  constructor
  · simp [hdrq]
  · simp [hdr]
  · rw [fetch_turns h hk (hs.running (.inl hv)) hjump, hdr, hdrq, hisa, Isa.step, htarget]
    rfl
  · simp [hdr, hdrq]
  · rw [hisa, Isa.step, hnone, hto]
    rfl

/-- The program goes on: what leaves, if anything, and whether it jumps. -/
theorem Straight.isa_next (hbusy : Backend.executeBusy i.env s.core = false)
    (hjump : Backend.jump i.env s.core = false) :
    (next rom i s).isa.pc = after rom s.core.fdr.drq.valid s.isa.pc ∧
      (next rom i s).isa.target =
        if (next rom i s).core.er.jump then some (next rom i s).core.er.jumpaddr else none := by
  rw [jump_eq h.trapq] at hjump
  by_cases hv : s.core.fdr.drq.valid = true
  · have hnone : s.core.er.jump = false := by simpa [hv] using hjump
    have htarget : s.isa.target = none := by rw [hs.target, hnone]; rfl
    rw [isa_moves (by rw [leaves_eq rom false hbusy, hv]; rfl)]
    refine ⟨by simp [Isa.step, htarget, after, hv], ?_⟩
    rw [jump_next, jumpaddr_next hk]
    show jumpsTo rom i s = _
    by_cases hc : Execute.completes (ex rom i s) s.core.er = true
    · simp only [jumpsTo, hc, Bool.true_and, if_true]
    · simp [jumpsTo, hc, hv]
  · have hc : ¬ Execute.completes (ex rom i s) s.core.er = true := fun hc => hv (completes_valid hc)
    rw [isa_stays (by rw [leaves_eq rom false hbusy]; simpa using hv)]
    refine ⟨by simp [after, hv], ?_⟩
    rw [jump_next, jumpaddr_next hk, if_neg hc, if_neg hv, if_neg hc, if_neg hv]
    exact hs.target

/-- Decode waits for a register. -/
theorem Straight.waits_register (hbusy : Backend.executeBusy i.env s.core = false)
    (hjump : Backend.jump i.env s.core = false)
    (hwait : Backend.allvalid i.env s.core = false) : Straight rom (next rom i s) := by
  have hfreeze : Backend.freezeDecoder i.env s.core = true := by
    simp [Backend.freezeDecoder, hwait]
  obtain ⟨hpc, htarget⟩ := hs.isa_next h hk hbusy hjump
  have hdrq : (next rom i s).core.fdr.drq.valid = false := by
    rw [drq_moves hk hbusy, hwait]
    simp
  have hdr := dr_valid_frozen rom hjump hfreeze
  refine ⟨by simp [hdrq], ?_, ?_, ?_, htarget⟩
  · rw [hdr, hdrq, hpc]
    exact fun hv => dr_frozen hjump hfreeze (hs.dr hv)
  · rw [fetch_stays h hk hjump hfreeze, hdr, hdrq, hpc]
    exact hs.fetch
  · rw [hdr, hdrq]
    exact fun hv => state_next (hs.running (.inr (by simpa using hv))) hjump

theorem Straight.advances (hbusy : Backend.executeBusy i.env s.core = false)
    (hjump : Backend.jump i.env s.core = false)
    (hready : Backend.allvalid i.env s.core = true) : Straight rom (next rom i s) := by
  have hfreeze : Backend.freezeDecoder i.env s.core = false := by
    simp [Backend.freezeDecoder, hbusy, hready]
  obtain ⟨hpc, htarget⟩ := hs.isa_next h hk hbusy hjump
  have hdrq : (next rom i s).core.fdr.drq = s.core.dr := by
    rw [drq_moves hk hbusy, hjump, hready]
    simp
  have hdr := dr_valid_taken rom hjump hfreeze
  refine ⟨?_, ?_, ?_, ?_, htarget⟩
  · rw [hdrq, hpc]
    exact hs.dr
  · rw [hdr, hdrq, hpc, ← hs.fetch]
    exact fun htaken => dr_taken h.stream hjump hfreeze htaken
  · rw [fetch_advances h hk hjump, hdr, hdrq, hpc, ← hs.fetch]
  · rw [hdr, hdrq]
    rintro (hv | htaken)
    · exact state_next (hs.running (.inr hv)) hjump
    · simp only [Stream.taken, Bool.and_eq_true] at htaken
      exact state_next (Fetch.output_valid_running _ _ htaken.1) hjump

theorem Straight.step : Straight rom (next rom i s) ∨ Turned rom (next rom i s) := by
  cases hbusy : Backend.executeBusy i.env s.core with
  | true =>
    cases hjump : Backend.jump i.env s.core with
    | false => exact .inl (hs.waits h hk hbusy hjump)
    | true => exact .inr (hs.turns h hk hbusy hjump)
  | false =>
    cases hjump : Backend.jump i.env s.core with
    | true => exact .inl (hs.jumps h hk hbusy hjump)
    | false =>
      cases hready : Backend.allvalid i.env s.core with
      | false => exact .inl (hs.waits_register h hk hbusy hjump hready)
      | true => exact .inl (hs.advances h hk hbusy hjump hready)

end Straight

/-! ### Behind a jump -/

section Turned

variable (h : Follows rom s) (ht : Turned rom s) (hk : Steady rom i s)

include h ht hk

theorem Turned.waits (hbusy : Backend.executeBusy i.env s.core = true) :
    Turned rom (next rom i s) := by
  have hfreeze := frozen_of_busy hbusy
  have hjump : Backend.jump i.env s.core = false := by rw [jump_eq h.trapq, ht.jump]; rfl
  have hisa := isa_stays (leaves_eq rom true hbusy ▸ Bool.and_false _)
  have hdrq := drq_stays rom hbusy
  constructor
  · rw [hdrq]
    exact ht.valid
  · rw [hdrq, hisa]
    exact ht.drq
  · rw [dr_valid_frozen rom hjump hfreeze]
    exact ht.dr
  · rw [jump_held h.orderly hbusy, if_pos ht.valid]
  · rw [hisa, fetch_stays h hk hjump hfreeze]
    exact ht.target

/-- The delay slot leaves. -/
theorem Turned.leaves (hbusy : Backend.executeBusy i.env s.core = false) :
    Straight rom (next rom i s) := by
  have hjump : Backend.jump i.env s.core = false := by rw [jump_eq h.trapq, ht.jump]; rfl
  have hslot := hk.slot (by simp [ht.target]) ht.valid
  obtain ⟨hnone, hto⟩ := jump_slot rom (i := i) ht.valid hslot
  have hisa := isa_moves (by rw [leaves_eq rom false hbusy, ht.valid]; rfl)
  have hpc : (next rom i s).isa.pc = s.stream.fetch.pc := by
    rw [hisa, Isa.step, ht.target]
    rfl
  have hdrq : (next rom i s).core.fdr.drq.valid = false := by
    rw [drq_moves hk hbusy, ht.dr]
    rfl
  have htarget : (next rom i s).isa.target =
      if (next rom i s).core.er.jump then some (next rom i s).core.er.jumpaddr else none := by
    rw [hisa, Isa.step, hnone, hto]
    rfl
  cases hready : Backend.allvalid i.env s.core with
  | false =>
    have hfreeze : Backend.freezeDecoder i.env s.core = true := by
      simp [Backend.freezeDecoder, hready]
    have hdr := (dr_valid_frozen rom hjump hfreeze).trans ht.dr
    refine ⟨by simp [hdrq], by simp [hdr], ?_, by simp [hdr, hdrq], htarget⟩
    rw [fetch_stays h hk hjump hfreeze, hdr, hdrq, hpc]
    rfl
  | true =>
    have hfreeze : Backend.freezeDecoder i.env s.core = false := by
      simp [Backend.freezeDecoder, hbusy, hready]
    have hdr := dr_valid_taken rom hjump hfreeze
    refine ⟨by simp [hdrq], ?_, ?_, ?_, htarget⟩
    · rw [hdr, hdrq, hpc]
      exact fun htaken => dr_taken h.stream hjump hfreeze htaken
    · rw [fetch_advances h hk hjump, hdr, hdrq, hpc]
      rfl
    · rw [hdr, hdrq]
      intro htaken
      simp only [Bool.false_eq_true, false_or, Stream.taken, Bool.and_eq_true] at htaken
      exact state_next (Fetch.output_valid_running _ _ htaken.1) hjump

end Turned

theorem Follows.step (h : Follows rom s) (hk : Steady rom i s) : Follows rom (next rom i s) where
  stream := h.stream.step hk.inStep
  orderly := h.orderly.next hk.mult
  trapq := hk.trap
  stages := by
    rcases h.stages with hs | ht
    · exact hs.step h hk
    · cases hbusy : Backend.executeBusy i.env s.core with
      | true => exact .inr (ht.waits h hk hbusy)
      | false => exact .inl (ht.leaves h hk hbusy)

/-- What is in front of execute is the instruction the program is at. -/
theorem Follows.carries (h : Follows rom s) (hv : s.core.fdr.drq.valid = true) :
    Carries rom s.core.fdr.drq s.isa.pc := by
  rcases h.stages with hs | ht
  · exact hs.drq hv
  · exact ht.drq

end Clock

/-- In a run from reset whose clocks are steady, what execute processes is the instruction the
program is at, and unless it is a multiply it is done in that clock. -/
theorem program_followed (rom : BitVec 30 → Word) {s₀ : Flow} (inputs : Nat → FlowInput) (n : Nat)
    (hreset : Reset s₀) (hok : ∀ k < n, Steady rom (inputs k) (run rom s₀ inputs k))
    (hprocessed : processed rom (inputs n) (run rom s₀ inputs n) = true) :
    Carries rom (run rom s₀ inputs n).core.fdr.drq (run rom s₀ inputs n).isa.pc ∧
      (leaves rom (inputs n) (run rom s₀ inputs n) = true ∨
        (run rom s₀ inputs n).core.fdr.drq.ismult = true) := by
  have h : Follows rom (run rom s₀ inputs n) :=
    Run.invariant (Follows rom) (Steady rom) hreset.follows (fun _ _ hk h => h.step hk) n hok
  have hv : (run rom s₀ inputs n).core.fdr.drq.valid = true :=
    Processor.processed_valid _ _ hprocessed
  refine ⟨h.carries hv, ?_⟩
  cases hbusy : Backend.executeBusy (inputs n).env (run rom s₀ inputs n).core with
  | false => exact .inl (by rw [leaves_eq rom false hbusy, hv]; rfl)
  | true => exact .inr (h.orderly.held hbusy hprocessed).1

/-! ### A store in the delay slot -/

def reset : Flow := ⟨Stream.start, Backend.reset, ⟨Fetch.resetaddress, none⟩⟩

theorem reset_reset : Reset reset := ⟨rfl, Backend.reset_reset, rfl⟩

/-- A `br` to the second half of a word, with a store behind it; there an instruction of two
halfwords. -/
def branches (w : BitVec 30) : Word :=
  if w = 0x10000000 then 0x40801012 else if w = 0x10000002 then 0x00008000 else 0

/-- The data bus holds the store back up to clock `last`. -/
def storing (last k : Nat) : FlowInput where
  answers := true
  busy := false
  xRead := 0
  env := { BackendInput.rest (fetched 0 0 false) with
    busStall := decide (5 ≤ k) && decide (k ≤ last), busAck := true }

theorem program_followed_store :
    processed branches (storing 5 11) (run branches reset (storing 5) 11) = true ∧
      Carries branches (run branches reset (storing 5) 11).core.fdr.drq
        (run branches reset (storing 5) 11).isa.pc :=
  ⟨by decide +kernel, (program_followed branches (storing 5) 11 reset_reset (by decide +kernel)
    (by decide +kernel)).1⟩

/-- The store holds the fetch unit in the clock in which the word of the target comes.  The third
instruction from the target on is not the program's. -/
theorem program_lost :
    Reset reset ∧
      (∀ k ≤ 11, (storing 6 k).busy = false ∧ (storing 6 k).env.multValid = false ∧
        Backend.trap (storing 6 k).env (run branches reset (storing 6) k).core = false ∧
        ((run branches reset (storing 6) k).core.fdr.drq.valid = true →
          (run branches reset (storing 6) k).core.fdr.drq.exceptReturn = false) ∧
        ((run branches reset (storing 6) k).isa.target ≠ none →
          (run branches reset (storing 6) k).core.fdr.drq.valid = true →
          (run branches reset (storing 6) k).core.fdr.drq.isJump = false ∧
          (run branches reset (storing 6) k).core.fdr.drq.imflag = false)) ∧
      processed branches (storing 6 11) (run branches reset (storing 6) 11) = true ∧
      (run branches reset (storing 6) 11).isa.pc = 0x40000010 ∧
      (run branches reset (storing 6) 11).core.fdr.drq.pc = 0x40000012 :=
  ⟨reset_reset, by decide +kernel⟩

end Flow

end Xtc
