import Xtc.Lib.Bits
import Xtc.Lib.Linear
import Xtc.Sdram.Commands

/-!
# Transfers — the memory behind the controller

To the bus the controller, its chip and the registers after them are one memory of 32-bit words.
What is taken and kept is executed in its order: a write in the clock of its second column, a read
in the clock it is issued, up to three of them before the first is answered.
-/

namespace Xtc

namespace Sdram

/-! ## Words and columns -/

theorem getLsbD_colOf (w : BitVec 21) (k : Nat) :
    (colOf w).getLsbD k = (decide (0 < k) && decide (k < 8) && w.getLsbD (k - 1)) := by
  refine (BitVec.getLsbD_append (x := w.extractLsb' 0 7) (y := 0#1) (i := k)).trans ?_
  rcases k with _ | k
  · rfl
  · have hlt : k + 1 < 8 ↔ k < 7 := by omega
    simp [BitVec.getLsbD_extractLsb', hlt, -BitVec.getLsbD_eq_getElem]

theorem word_ext {v w : BitVec 21} (hb : bankOf v = bankOf w) (hr : rowOf v = rowOf w)
    (hc : colOf v = colOf w) : v = w := by
  apply BitVec.eq_of_getLsbD_eq
  intro k hk
  by_cases hcol : k < 7
  · have hbit := congrArg (fun x => x.getLsbD (k + 1)) hc
    have hk8 : k + 1 < 8 := by omega
    simpa [getLsbD_colOf, hk8, -BitVec.getLsbD_eq_getElem] using hbit
  · by_cases hbank : k < 9
    · have hbit := congrArg (fun x => x.getLsbD (k - 7)) hb
      have hk2 : k - 7 < 2 := by omega
      have hsum : 7 + (k - 7) = k := by omega
      simpa [bankOf, hk2, hsum, -BitVec.getLsbD_eq_getElem] using hbit
    · have hbit := congrArg (fun x => x.getLsbD (k - 9)) hr
      have hk12 : k - 9 < 12 := by omega
      have hsum : 9 + (k - 9) = k := by omega
      simpa [rowOf, hk12, hsum, -BitVec.getLsbD_eq_getElem] using hbit

theorem colOf_or_ne (v w : BitVec 21) : colOf v ||| 1#8 ≠ colOf w := by
  intro h
  have hbit := congrArg (fun x => x.getLsbD 0) h
  simp [getLsbD_colOf, -BitVec.getLsbD_eq_getElem] at hbit

theorem colOf_of_or {v w : BitVec 21} (h : colOf v ||| 1#8 = colOf w ||| 1#8) :
    colOf v = colOf w := by
  apply BitVec.eq_of_getLsbD_eq
  intro k hk
  rcases k with _ | k
  · simp [getLsbD_colOf, -BitVec.getLsbD_eq_getElem]
  · have hbit := congrArg (fun x => x.getLsbD (k + 1)) h
    simpa [-BitVec.getLsbD_eq_getElem] using hbit

theorem column_first (w : BitVec 21) : ((colOf w).setWidth 12).extractLsb' 0 8 = colOf w := by
  apply BitVec.eq_of_getLsbD_eq
  intro k hk
  have hk12 : k < 12 := by omega
  simp [hk, hk12, -BitVec.getLsbD_eq_getElem]

theorem column_second (w : BitVec 21) :
    (setBit ((colOf w).setWidth 12) 0).extractLsb' 0 8 = colOf w ||| 1#8 := by
  apply BitVec.eq_of_getLsbD_eq
  intro k hk
  have hk12 : k < 12 := by omega
  rcases k with _ | k <;> simp [setBit, hk, hk12, -BitVec.getLsbD_eq_getElem]

/-- The two halves of a word. -/
def upper (v : Word) : Half := v.extractLsb' 16 16
def lower (v : Word) : Half := v.extractLsb' 0 16

@[simp] theorem upper_append (a b : Half) : upper (a ++ b) = a := Bits.extractLsb'_high a b

@[simp] theorem lower_append (a b : Half) : lower (a ++ b) = b := Bits.extractLsb'_low a b

theorem upper_lower (v : Word) : upper v ++ lower v = v :=
  (Bits.extractLsb'_join v 0 16 16).trans BitVec.extractLsb'_eq_self

theorem merge_eq (m : BitVec 4) (d v : Word) : merge m d v =
    select (m.extractLsb' 2 2) (upper d) (upper v) ++
      select (m.extractLsb' 0 2) (lower d) (lower v) := by
  have hmask : byteMask m = laneMask (m.extractLsb' 2 2) ++ laneMask (m.extractLsb' 0 2) := by
    revert m
    decide
  conv_lhs => rw [merge, hmask, ← upper_lower d, ← upper_lower v]
  rw [BitVec.not_append, BitVec.and_append, BitVec.and_append, BitVec.or_append]
  rfl

theorem select_full (d w : Half) : select (~~~ 0#2) d w = d := by
  have hmask : laneMask (~~~ 0#2) = BitVec.allOnes 16 := by decide
  rw [select, hmask, BitVec.and_allOnes, BitVec.not_allOnes, BitVec.and_zero, BitVec.or_zero]

/-! ## The memory -/

abbrev Image := BitVec 21 → Word

/-- The word a request addresses; the bits above are not looked at. -/
def target (r : WbRequest) : BitVec 21 := r.adr.extractLsb' 2 21

/-- A memory of words that are written by bytes.  What a write answers is not said. -/
def effect (m : Image) (r : WbRequest) (a : WbAnswer) (m' : Image) : Prop :=
  a.tag = r.tag ∧ a.err = false ∧
    if r.we then m' = Function.update m (target r) (merge r.sel r.dat (m (target r)))
    else a.dat = m (target r) ∧ m' = m

def image (c : Chip) : Image := fun w =>
  c.mem (bankOf w) (rowOf w) (colOf w) ++ c.mem (bankOf w) (rowOf w) (colOf w ||| 1#8)

section Image

variable {c : Chip} {w : BitVec 21} {mask : BitVec 2} {dq : Half} {b : BitVec 2}

theorem image_first (hrow : c.row (bankOf w) = rowOf w) :
    image (c.clock masked (.write (bankOf w) (colOf w)) mask dq) =
      Function.update (image c) w
        (masked mask dq (upper (image c w)) ++ lower (image c w)) := by
  funext v
  by_cases hv : v = w
  · subst hv
    rw [Function.update_self]
    simp [image, Dram.Chip.clock, Dram.Chip.nextMem, hrow, colOf_or_ne]
  · rw [Function.update_of_ne hv]
    have hcol : ¬ (bankOf v = bankOf w ∧ rowOf v = rowOf w ∧ colOf v = colOf w) :=
      fun h => hv (word_ext h.1 h.2.1 h.2.2)
    simp [image, Dram.Chip.clock, Dram.Chip.nextMem, hrow, hcol, colOf_or_ne]

theorem image_second (hrow : c.row (bankOf w) = rowOf w) :
    image (c.clock masked (.write (bankOf w) (colOf w ||| 1#8)) mask dq) =
      Function.update (image c) w
        (upper (image c w) ++ masked mask dq (lower (image c w))) := by
  funext v
  have hne : colOf v ≠ colOf w ||| 1#8 := (colOf_or_ne w v).symm
  by_cases hv : v = w
  · subst hv
    rw [Function.update_self]
    simp [image, Dram.Chip.clock, Dram.Chip.nextMem, hrow, hne]
  · rw [Function.update_of_ne hv]
    have hcol : ¬ (bankOf v = bankOf w ∧ rowOf v = rowOf w ∧ colOf v ||| 1#8 = colOf w ||| 1#8) :=
      fun h => hv (word_ext h.1 h.2.1 (colOf_of_or h.2.2))
    simp [image, Dram.Chip.clock, Dram.Chip.nextMem, hrow, hcol, hne]

end Image

/-! ## What is under way -/

namespace System

structure Slot (s : Regs) (r : WbRequest) : Prop where
  rd : s.rdPending = !r.we
  wr : s.wrPending = r.we
  addr : s.reqAddrQ = target r
  tag : s.tagIn = r.tag
  data : r.we = true → s.reqDataWrite = r.dat ∧ s.reqMask = r.sel

inductive Waits (s : Regs) : List WbRequest → Prop
  | empty (h : s.pending = false) : Waits s []
  | one {r : WbRequest} (h : Slot s r) : Waits s [r]

structure Opened (s : Regs) (w : BitVec 21) : Prop where
  bank : s.bank = bankOf w
  actRow : s.actRow = rowOf w

structure WriteFirst (s : Regs) (r : WbRequest) : Prop extends Opened s (target r) where
  we : r.we = true
  addr : s.reqAddrQ = target r
  tagIn : s.tagIn = r.tag
  data : s.reqDataWrite = r.dat
  mask : s.reqMask = r.sel
  tagq : s.tagq = r.tag
  address : s.address = (colOf (target r)).setWidth 12
  dataWrite : s.dataWrite = upper r.dat
  dqMasks : s.dqMasks = ~~~ r.sel.extractLsb' 2 2

structure WriteSecond (s : Regs) (r : WbRequest) : Prop extends Opened s (target r) where
  we : r.we = true
  tagq : s.tagq = r.tag
  address : s.address = setBit ((colOf (target r)).setWidth 12) 0
  dataWrite : s.dataWrite = lower r.dat
  dqMasks : s.dqMasks = ~~~ r.sel.extractLsb' 0 2

/-- The write under way, and what the chip holds of the memory `m`. -/
inductive Writes (m : Image) (s : System) : List WbRequest → Prop
  | rest (h : s.regs.rstate ≠ .wr0) (h' : s.regs.rstate ≠ .wr3) (hm : image s.chip = m) :
      Writes m s []
  | first {r : WbRequest} (h : s.regs.rstate = .wr0) (hr : WriteFirst s.regs r)
      (hm : image s.chip = m) : Writes m s [r]
  | second {r : WbRequest} (h : s.regs.rstate = .wr3) (hr : WriteSecond s.regs r)
      (hm : image s.chip = Function.update m (target r)
        (select (r.sel.extractLsb' 2 2) (upper r.dat) (upper (m (target r))) ++
          lower (m (target r)))) : Writes m s [r]

abbrev Transfer := WbRequest × WbAnswer

/-- A read and what it answers, as the chip holds it. -/
structure Fetches (s : System) (p : Transfer) : Prop where
  we : p.1.we = false
  tag : p.2.tag = p.1.tag
  dat : p.2.dat = image s.chip (target p.1)

structure ReadFirst (s : System) (p : Transfer) : Prop
    extends Fetches s p, Opened s.regs (target p.1) where
  tagq : s.regs.tagq = p.2.tag
  address : s.regs.address = (colOf (target p.1)).setWidth 12
  dqMasks : s.regs.dqMasks = 0

/-- The second column is addressed, and the chip has taken the first. -/
structure ReadSecond (s : System) (p : Transfer) : Prop
    extends Fetches s p, Opened s.regs (target p.1) where
  tagq : s.regs.tagq = p.2.tag
  address : s.regs.address = setBit ((colOf (target p.1)).setWidth 12) 0
  dqMasks : s.regs.dqMasks = 0
  reading : s.chip.reading = some (bankOf (target p.1), colOf (target p.1))
  mask : s.chip.mask = 0

/-- The upper half is on the pins, and the chip has taken the second column. -/
structure ReadUpper (s : System) (p : Transfer) : Prop
    extends Fetches s p, Opened s.regs (target p.1) where
  tagOut : s.regs.tagOut = p.2.tag
  tristate : s.regs.tristate = true
  dq : s.chip.dq = some (0, upper p.2.dat)
  reading : s.chip.reading = some (bankOf (target p.1), colOf (target p.1) ||| 1#8)
  mask : s.chip.mask = 0

inductive Reads (s : System) : List Transfer → Prop
  | rest (h : s.regs.rstate ∉ [.rd0, .rd1, .rd3, .rd4, .rd5, .rd6]) : Reads s []
  | first {p : Transfer} (h : s.regs.rstate = .rd0) (hp : ReadFirst s p) : Reads s [p]
  | second {p : Transfer} (h : s.regs.rstate ∈ [.rd1, .rd4]) (hp : ReadSecond s p) : Reads s [p]
  | again {p q : Transfer} (h : s.regs.rstate ∈ [.rd3, .rd5]) (hp : ReadUpper s p)
      (hq : ReadFirst s q) : Reads s [p, q]
  | last {p : Transfer} (h : s.regs.rstate = .rd6) (hp : ReadUpper s p) : Reads s [p]

/-- What is answered by the next clock. -/
inductive Valid (s : System) : List Transfer → Prop
  | empty (h : s.regs.dataOutValid = false) : Valid s []
  | write {p : Transfer} (h : s.regs.dataOutValid = true) (we : p.1.we = true)
      (tag : s.regs.tagOut = p.2.tag) : Valid s [p]
  -- the lower half is on the pins
  | read {p : Transfer} (h : s.regs.dataOutValid = true) (tag : s.regs.tagOut = p.2.tag)
      (low : s.regs.dataOutLow = upper p.2.dat) (tristate : s.regs.tristate = true)
      (dq : s.chip.dq = some (0, lower p.2.dat)) : Valid s [p]

/-- What is answered in this clock. -/
inductive Acked (s : System) : List Transfer → Prop
  | empty (h : s.wbAckO = false) : Acked s []
  | one {p : Transfer} (h : s.wbAckO = true) (tag : s.wbTagO = p.2.tag)
      (dat : p.1.we = false → s.wbDatO = p.2.dat) : Acked s [p]

/-- The pins are free for a write. -/
structure Free (s : System) : Prop where
  reading : s.regs.rstate ∈ [.ra2, .wr0, .wr3] → s.chip.reading = none
  dq : s.regs.rstate ∈ [.wr0, .wr3] → s.chip.dq = none ∧ s.regs.tristate = false

/-- The transfers of a clock: answered by the next one, read, written, waiting. -/
structure Stage (m : Image) (s : System) (B C : List Transfer) (W T : List WbRequest) : Prop where
  valid : Valid s B
  reads : Reads s C
  writes : Writes m s W
  waits : Waits s.regs T
  free : Free s

section Step

variable {i : SystemInput} {s : System} {m : Image} {A B C : List Transfer}
  {W T : List WbRequest}

theorem Valid.acked (h : Valid s B) : Acked (next i s) B := by
  cases h with
  | empty h => exact .empty h
  | write h we tag => exact .one h tag fun hwe => absurd (we.symm.trans hwe) (by decide)
  | @read p h tag low tristate dq =>
    have hpins : dramDq i s = lower p.2.dat := by
      rw [dramDq, dq, tristate]
      exact select_full _ _
    refine .one h tag fun _ => ?_
    have hdat : (next i s).wbDatO = s.regs.dataOutLow ++ dramDq i s := rfl
    rw [hdat, low, hpins, upper_lower]

theorem pending_of_slot {r : Regs} {q : WbRequest} (h : Slot r q) : r.pending = true := by
  rw [Regs.pending, h.rd, h.wr]
  cases q.we <;> rfl

/-- A request goes into the empty slot. -/
theorem Waits.prepared (h : Waits s.regs T) :
    Waits (Regs.prepared (input i) s.regs) (T ++ (takes i s).toList) := by
  cases h with
  | one h =>
    have hpend := pending_of_slot h
    have htakes : takes i s = none := by simp [takes, Mosi.taken, wbo, hpend]
    have hrd : Regs.takesRead (input i) s.regs = false := by simp [Regs.takesRead, hpend]
    have hwr : Regs.takesWrite (input i) s.regs = false := by simp [Regs.takesWrite, hpend]
    rw [htakes]
    refine .one ⟨?_, ?_, ?_, ?_, ?_⟩ <;> simp [hrd, hwr, h.rd, h.wr, h.addr, h.tag]
    exact h.data
  | empty h =>
    have hnone : s.regs.wrPending = false ∧ s.regs.rdPending = false := by
      simpa [Regs.pending] using h
    cases hreq : i.wbi.cyc && i.wbi.stb with
    | false =>
      have htakes : takes i s = none := by simp [takes, Mosi.taken, hreq]
      have hrd : Regs.takesRead (input i) s.regs = false := by
        simp [Regs.takesRead, input, hreq]
      have hwr : Regs.takesWrite (input i) s.regs = false := by
        simp [Regs.takesWrite, input, hreq]
      rw [htakes]
      refine .empty ?_
      simp [Regs.pending, hrd, hwr, hnone]
    | true =>
      have htakes : takes i s = some i.wbi.request := by simp [takes, Mosi.taken, wbo, hreq, h]
      have hrd : Regs.takesRead (input i) s.regs = !i.wbi.we := by
        simp [Regs.takesRead, input, hreq, h]
      have hwr : Regs.takesWrite (input i) s.regs = i.wbi.we := by
        simp [Regs.takesWrite, input, hreq, h]
      rw [htakes]
      refine .one ⟨?_, ?_, ?_, ?_, ?_⟩ <;> simp [hrd, hwr, hnone] <;>
        cases hwe : i.wbi.we <;> simp [Mosi.request, target, input, hwe]

theorem Waits.congr {r r' : Regs} (h : Waits r T) (hrd : r'.rdPending = r.rdPending)
    (hwr : r'.wrPending = r.wrPending) (haddr : r'.reqAddrQ = r.reqAddrQ)
    (htag : r'.tagIn = r.tagIn) (hdata : r'.reqDataWrite = r.reqDataWrite)
    (hmask : r'.reqMask = r.reqMask) : Waits r' T := by
  cases h with
  | empty h => exact .empty (by rw [Regs.pending, hrd, hwr]; exact h)
  | one h =>
    exact .one ⟨hrd.trans h.rd, hwr.trans h.wr, haddr.trans h.addr, htag.trans h.tag,
      fun hwe => ⟨hdata.trans (h.data hwe).1, hmask.trans (h.data hwe).2⟩⟩

theorem Waits.read (h : Waits s.regs T) (hrd : s.regs.rdPending = true) :
    ∃ r, T = [r] ∧ Slot s.regs r ∧ r.we = false := by
  cases h with
  | empty h => simp [Regs.pending, hrd] at h
  | @one r h => exact ⟨r, rfl, h, by simpa [hrd] using h.rd⟩

theorem Waits.write (h : Waits s.regs T) (hwr : s.regs.wrPending = true) :
    ∃ r, T = [r] ∧ Slot s.regs r ∧ r.we = true := by
  cases h with
  | empty h => simp [Regs.pending, hwr] at h
  | @one r h => exact ⟨r, rfl, h, h.wr.symm.trans hwr⟩

theorem slot_prepared (h : s.regs.pending = true) :
    (Regs.prepared (input i) s.regs).reqAddrQ = s.regs.reqAddrQ ∧
      (Regs.prepared (input i) s.regs).tagIn = s.regs.tagIn ∧
      (Regs.prepared (input i) s.regs).reqDataWrite = s.regs.reqDataWrite ∧
      (Regs.prepared (input i) s.regs).reqMask = s.regs.reqMask := by
  simp [Regs.takesRead, Regs.takesWrite, h]

/-- The flags of the slot are put back. -/
theorem Waits.dropped (h : Waits s.regs T) {n : Regs} (hrd : n.rdPending = s.regs.rdPending)
    (hwr : n.wrPending = s.regs.wrPending)
    (haddr : n.reqAddrQ = (Regs.prepared (input i) s.regs).reqAddrQ)
    (htag : n.tagIn = (Regs.prepared (input i) s.regs).tagIn)
    (hdata : n.reqDataWrite = (Regs.prepared (input i) s.regs).reqDataWrite)
    (hmask : n.reqMask = (Regs.prepared (input i) s.regs).reqMask) : Waits n T := by
  cases h with
  | empty h => exact .empty (by rw [Regs.pending, hrd, hwr]; exact h)
  | one h =>
    obtain ⟨haddr', htag', hdata', hmask'⟩ := slot_prepared (i := i) (pending_of_slot h)
    exact (Waits.one h).congr hrd hwr (haddr.trans haddr') (htag.trans htag')
      (hdata.trans hdata') (hmask.trans hmask')

/-! The chip in a clock. -/

theorem image_next (h : s.regs.rstate.cmd ≠ .write) : image (next i s).chip = image s.chip := by
  have hmem : (next i s).chip.mem = s.chip.mem := by
    funext b r k
    show s.chip.nextMem masked s.regs.command _ _ b r k = _
    unfold Regs.command
    cases hc : s.regs.rstate.cmd <;> cases s.regs.address.getLsbD 10 <;>
      first
        | exact absurd hc h
        | rfl
  unfold image
  rw [hmem]

theorem reading_next (h : s.regs.rstate.cmd ≠ .read) : (next i s).chip.reading = none := by
  unfold next Dram.Chip.clock Regs.command
  cases hc : s.regs.rstate.cmd <;> cases s.regs.address.getLsbD 10 <;>
    first
      | exact absurd hc h
      | rfl

theorem dq_next_none (h : s.chip.reading = none) : (next i s).chip.dq = none := by
  unfold next Dram.Chip.clock Dram.Chip.nextDq
  rw [h]
  cases s.regs.command <;> rfl

theorem dq_next_some {b : BitVec 2} {c : BitVec 8} (h : s.chip.reading = some (b, c))
    (hcmd : s.regs.rstate.cmd ≠ .write) :
    (next i s).chip.dq = some (s.chip.mask, s.chip.mem b (s.chip.row b) c) := by
  unfold next Dram.Chip.clock Dram.Chip.nextDq Regs.command
  rw [h]
  cases hc : s.regs.rstate.cmd <;> cases s.regs.address.getLsbD 10 <;>
    first
      | exact absurd hc hcmd
      | rfl

theorem Ready.reading_next (h : Ready s) (hcmd : s.regs.rstate.cmd = .read) :
    (System.next i s).chip.reading = some (s.regs.bank, s.regs.address.extractLsb' 0 8) := by
  have hcommand := h.command
  rw [hcmd] at hcommand
  unfold System.next Dram.Chip.clock
  rw [hcommand]

theorem Ready.openRow (h : Ready s) (hopen : s.regs.rstate.opened = true) {w : BitVec 21}
    (hw : Opened s.regs w) : s.chip.row (bankOf w) = rowOf w := by
  have hrow := (h.opened hopen).2
  rwa [hw.bank, hw.actRow] at hrow

/-! One clock. -/

/-- What was under way goes on: `done` is executed in the clock. -/
def Advances (i : SystemInput) (s : System) (m : Image) (C : List Transfer)
    (W T : List WbRequest) : Prop :=
  ∃ done m' B' C' W' T', Linear.History effect m done m' ∧ C ++ done = B' ++ C' ∧
    W ++ T ++ (keeps i s).toList = done.map Prod.fst ++ (W' ++ T') ∧
    Stage m' (next i s) B' C' W' T'

theorem Reads.eq_nil (h : Reads s C)
    (hs : s.regs.rstate ∉ [.rd0, .rd1, .rd3, .rd4, .rd5, .rd6]) : C = [] := by
  simp only [List.mem_cons, List.not_mem_nil, or_false, not_or] at hs
  cases h with
  | rest => rfl
  | first h | last h => simp_all
  | second h | again h => simp_all

theorem Writes.eq_nil (h : Writes m s W) (hs : s.regs.rstate ∉ [.wr0, .wr3]) :
    W = [] ∧ image s.chip = m := by
  simp only [List.mem_cons, List.not_mem_nil, or_false, not_or] at hs
  cases h with
  | rest _ _ hm => exact ⟨rfl, hm⟩
  | first h => exact absurd h hs.1
  | second h => exact absurd h hs.2

theorem keeps_eq (h : s.regs.rstate ≠ .wr3) : keeps i s = takes i s := by
  simp [keeps, drops, h]

theorem Free.of_state (h : s.regs.rstate ∉ [.ra2, .wr0, .wr3]) : Free s where
  reading hmem := absurd hmem h
  dq hmem := absurd (List.mem_cons_of_mem _ hmem) h

def Quiet (x : State) : Prop :=
  x ∉ [.rd0, .rd1, .rd3, .rd4, .rd5, .rd6] ∧ x ∉ [.wr0, .wr3]

/-- A clock that moves no data. -/
theorem Stage.quiet (h : Stage m s B C W T) (hs : Quiet s.regs.rstate)
    {x : State} {a : BitVec 12} {b : BitVec 2} {r : BitVec 12} {f : Bool} {c : Nat}
    (hregs : (next i s).regs = { Regs.prepared (input i) s.regs with
      rstate := x, address := a, bank := b, actRow := r, rfPending := f, rfCounter := c })
    (hx : Quiet x) : Advances i s m C W T := by
  have hcmd : s.regs.rstate.cmd ≠ .read ∧ s.regs.rstate.cmd ≠ .write := by
    revert hs
    unfold Quiet
    cases s.regs.rstate <;> decide
  have hwr3 : s.regs.rstate ≠ .wr3 := by
    intro hwr3
    rw [hwr3] at hs
    exact hs.2 (by decide)
  obtain rfl := h.reads.eq_nil hs.1
  obtain ⟨rfl, hm⟩ := h.writes.eq_nil hs.2
  refine ⟨[], m, [], [], [], T ++ (takes i s).toList, .nil m, rfl, ?_, ?_⟩
  · rw [keeps_eq hwr3]
    rfl
  · have hstate : (next i s).regs.rstate = x := by rw [hregs]
    refine ⟨.empty ?_, .rest ?_, .rest ?_ ?_ ?_, ?_, ⟨?_, ?_⟩⟩
    · rw [hregs]
      exact Regs.prepared_dataOutValid (input i) s.regs
    · rw [hstate]
      exact hx.1
    · intro hwr
      rw [hstate.symm.trans hwr] at hx
      exact hx.2 (by decide)
    · intro hwr
      rw [hstate.symm.trans hwr] at hx
      exact hx.2 (by decide)
    · rw [image_next hcmd.2, hm]
    · rw [hregs]
      exact h.waits.prepared.congr rfl rfl rfl rfl rfl rfl
    · intro _
      exact reading_next hcmd.1
    · intro hwr
      rw [hstate] at hwr
      exact absurd hwr hx.2

/-! The stages of a read. -/

theorem addr_of_slot {r : Regs} {q : WbRequest} (h : Slot r q) (hrow : r.sameRow = true) :
    Opened r (target q) ∧ r.addrBank = r.bank := by
  have hboth : r.actRow = r.addrRow ∧ r.bank = r.addrBank := by simpa [Regs.sameRow] using hrow
  refine ⟨⟨?_, ?_⟩, hboth.2.symm⟩
  · rw [hboth.2, Regs.addrBank, h.addr]
  · rw [hboth.1, Regs.addrRow, h.addr]

/-- The answer to a read that was issued by this clock. -/
def fetched (s : System) (r : WbRequest) : WbAnswer := ⟨image s.chip (target r), r.tag, false⟩

theorem readFirst_next {r : WbRequest} {n : Regs} (hregs : (next i s).regs = n)
    (h : Slot s.regs r) (hwe : r.we = false) (hrow : s.regs.sameRow = true)
    (hbank : n.bank = s.regs.addrBank) (hact : n.actRow = s.regs.actRow)
    (htagq : n.tagq = s.regs.tagIn) (haddr : n.address = s.regs.addrCol.setWidth 12)
    (hmask : n.dqMasks = 0) : ReadFirst (next i s) (r, fetched (next i s) r) := by
  obtain ⟨hopened, hsame⟩ := addr_of_slot h hrow
  refine ⟨⟨hwe, rfl, rfl⟩, ⟨?_, ?_⟩, ?_, ?_, ?_⟩
  · rw [hregs, hbank, hsame, hopened.bank]
  · rw [hregs, hact, hopened.actRow]
  · rw [hregs, htagq, h.tag]
    rfl
  · rw [hregs, haddr, Regs.addrCol, h.addr]
  · rw [hregs, hmask]

theorem readSecond_next {p : Transfer} {n : Regs} (hregs : (next i s).regs = n)
    (hready : Ready s) (h : ReadFirst s p) (hcmd : s.regs.rstate.cmd = .read)
    (hbank : n.bank = s.regs.bank) (hact : n.actRow = s.regs.actRow)
    (htagq : n.tagq = s.regs.tagq) (haddr : n.address = setBit s.regs.address 0)
    (hmask : n.dqMasks = 0) : ReadSecond (next i s) p := by
  have hwrite : s.regs.rstate.cmd ≠ .write := by rw [hcmd]; decide
  refine ⟨⟨h.we, h.tag, ?_⟩, ⟨?_, ?_⟩, ?_, ?_, ?_, ?_, h.dqMasks⟩
  · rw [image_next hwrite, h.dat]
  · rw [hregs, hbank, h.bank]
  · rw [hregs, hact, h.actRow]
  · rw [hregs, htagq, h.tagq]
  · rw [hregs, haddr, h.address]
  · rw [hregs, hmask]
  · rw [hready.reading_next hcmd, h.bank, h.address, column_first]

theorem readUpper_next {p : Transfer} {n : Regs} (hregs : (next i s).regs = n)
    (hready : Ready s) (h : ReadSecond s p) (hcmd : s.regs.rstate.cmd = .read)
    (hopen : s.regs.rstate.opened = true) (hbank : n.bank = s.regs.bank)
    (hact : n.actRow = s.regs.actRow) (htag : n.tagOut = s.regs.tagq)
    (htri : n.tristate = true) : ReadUpper (next i s) p := by
  have hwrite : s.regs.rstate.cmd ≠ .write := by rw [hcmd]; decide
  have hrow := hready.openRow hopen h.toOpened
  refine ⟨⟨h.we, h.tag, ?_⟩, ⟨?_, ?_⟩, ?_, ?_, ?_, ?_, h.dqMasks⟩
  · rw [image_next hwrite, h.dat]
  · rw [hregs, hbank, h.bank]
  · rw [hregs, hact, h.actRow]
  · rw [hregs, htag, h.tagq]
  · rw [hregs, htri]
  · rw [dq_next_some h.reading hwrite, h.mask, hrow, h.dat, image, upper_append]
  · rw [hready.reading_next hcmd, h.bank, h.address, column_second]

theorem valid_next {p : Transfer} {n : Regs} (hregs : (next i s).regs = n) (hready : Ready s)
    (h : ReadUpper s p) (hcmd : s.regs.rstate.cmd ≠ .write)
    (hopen : s.regs.rstate.opened = true) (hvalid : n.dataOutValid = true)
    (hlow : n.dataOutLow = dramDq i s) (htag : n.tagOut = s.regs.tagOut)
    (htri : n.tristate = true) : Valid (next i s) [p] := by
  have hrow := hready.openRow hopen h.toOpened
  refine .read ?_ ?_ ?_ ?_ ?_
  · rw [hregs, hvalid]
  · rw [hregs, htag, h.tagOut]
  · rw [hregs, hlow, dramDq, h.dq, h.tristate]
    exact select_full _ _
  · rw [hregs, htri]
  · rw [dq_next_some h.reading hcmd, h.mask, hrow, h.dat, image, lower_append]

theorem effect_fetched {r : WbRequest} (hwe : r.we = false) (hm : image s.chip = m) :
    effect m r (fetched s r) m := by
  refine ⟨rfl, rfl, ?_⟩
  rw [hwe]
  exact ⟨by rw [fetched, hm], rfl⟩

theorem waits_empty {n : Regs} (hrd : n.rdPending = false) (hwr : n.wrPending = false) :
    Waits n [] :=
  .empty (by rw [Regs.pending, hrd, hwr]; rfl)

theorem keeps_pending (h : s.regs.pending = true) : keeps i s = none := by
  have htakes : takes i s = none := by simp [takes, Mosi.taken, wbo, h]
  rw [keeps, htakes]
  split_ifs <;> rfl

theorem takes_prepared (h : s.regs.pending = true) :
    (Regs.prepared (input i) s.regs).rdPending = s.regs.rdPending ∧
      (Regs.prepared (input i) s.regs).wrPending = s.regs.wrPending := by
  simp [Regs.takesRead, Regs.takesWrite, h]

theorem Stage.read (h : Stage m s B C W T) (hstate : s.regs.rstate = .ra2)
    (hrd : s.regs.rdPending = true) (hwr : s.regs.wrPending = false)
    (hrow : s.regs.sameRow = true)
    (hregs : (next i s).regs = Regs.shifttags s.regs
      { Regs.readColumn s.regs (Regs.prepared (input i) s.regs) with
        rstate := .rd0, dataWrite := i.x.dataWrite }) : Advances i s m C W T := by
  have hpend : s.regs.pending = true := by simp [Regs.pending, hrd]
  have hcmd : s.regs.rstate.cmd ≠ .write ∧ s.regs.rstate.cmd ≠ .read := by rw [hstate]; decide
  obtain rfl := h.reads.eq_nil (by rw [hstate]; decide)
  obtain ⟨rfl, hm⟩ := h.writes.eq_nil (by rw [hstate]; decide)
  obtain ⟨r, rfl, hslot, hwe⟩ := h.waits.read hrd
  have hm' : image (next i s).chip = m := (image_next hcmd.1).trans hm
  have hstate' : (next i s).regs.rstate = .rd0 := by rw [hregs]; rfl
  refine ⟨[(r, fetched (next i s) r)], m, [], [(r, fetched (next i s) r)], [], [],
    .cons (effect_fetched hwe hm') (.nil m), rfl, ?_, ?_⟩
  · rw [keeps_pending hpend]
    rfl
  · refine ⟨.empty ?_, .first hstate' ?_, .rest ?_ ?_ hm', ?_,
      .of_state (by rw [hstate']; decide)⟩
    · rw [hregs]
      exact Regs.prepared_dataOutValid (input i) s.regs
    · exact readFirst_next hregs hslot hwe hrow rfl (Regs.prepared_actRow (input i) s.regs) rfl rfl
        rfl
    · rw [hstate']
      decide
    · rw [hstate']
      decide
    · rw [hregs]
      exact waits_empty rfl ((takes_prepared hpend).2.trans hwr)

/-! The stages of a write. -/

theorem writeFirst_next {r : WbRequest} {n : Regs} (hregs : (next i s).regs = n)
    (h : Slot s.regs r) (hwe : r.we = true) (hrow : s.regs.sameRow = true)
    (hbank : n.bank = s.regs.addrBank) (hact : n.actRow = s.regs.actRow)
    (htagq : n.tagq = s.regs.tagIn) (haddr : n.address = s.regs.addrCol.setWidth 12)
    (hdata : n.dataWrite = upper s.regs.reqDataWrite)
    (hmask : n.dqMasks = ~~~ s.regs.reqMask.extractLsb' 2 2)
    (hslot : n.reqAddrQ = s.regs.reqAddrQ ∧ n.tagIn = s.regs.tagIn ∧
      n.reqDataWrite = s.regs.reqDataWrite ∧ n.reqMask = s.regs.reqMask) :
    WriteFirst (next i s).regs r := by
  obtain ⟨hopened, hsame⟩ := addr_of_slot h hrow
  obtain ⟨hdat, hsel⟩ := h.data hwe
  rw [hregs]
  refine ⟨⟨?_, ?_⟩, hwe, hslot.1.trans h.addr, hslot.2.1.trans h.tag, hslot.2.2.1.trans hdat,
    hslot.2.2.2.trans hsel, htagq.trans h.tag, ?_, ?_, ?_⟩
  · rw [hbank, hsame, hopened.bank]
  · rw [hact, hopened.actRow]
  · rw [haddr, Regs.addrCol, h.addr]
  · rw [hdata, hdat]
  · rw [hmask, hsel]

theorem Stage.write (h : Stage m s B C W T) (hstate : s.regs.rstate = .ra2)
    (hrd : s.regs.rdPending = false) (hwr : s.regs.wrPending = true)
    (hrow : s.regs.sameRow = true)
    (hregs : (next i s).regs = Regs.shifttags s.regs
      { Regs.writeColumn s.regs (Regs.prepared (input i) s.regs) with rstate := .wr0 }) :
    Advances i s m C W T := by
  have hpend : s.regs.pending = true := by simp [Regs.pending, hwr]
  have hcmd : s.regs.rstate.cmd ≠ .write ∧ s.regs.rstate.cmd ≠ .read := by rw [hstate]; decide
  have hreading := h.free.reading (by rw [hstate]; decide)
  obtain rfl := h.reads.eq_nil (by rw [hstate]; decide)
  obtain ⟨rfl, hm⟩ := h.writes.eq_nil (by rw [hstate]; decide)
  obtain ⟨r, rfl, hslot, hwe⟩ := h.waits.write hwr
  have hm' : image (next i s).chip = m := (image_next hcmd.1).trans hm
  have hstate' : (next i s).regs.rstate = .wr0 := by rw [hregs]; rfl
  refine ⟨[], m, [], [], [r], [], .nil m, rfl, ?_, ?_⟩
  · rw [keeps_pending hpend]
    rfl
  · refine ⟨.empty ?_, .rest (by rw [hstate']; decide), .first hstate' ?_ hm', ?_, ⟨?_, ?_⟩⟩
    · rw [hregs]
      exact Regs.prepared_dataOutValid (input i) s.regs
    · exact writeFirst_next hregs hslot hwe hrow rfl (Regs.prepared_actRow (input i) s.regs) rfl
        rfl rfl rfl (slot_prepared hpend)
    · rw [hregs]
      exact waits_empty ((takes_prepared hpend).1.trans hrd) rfl
    · exact fun _ => reading_next hcmd.2
    · refine fun _ => ⟨dq_next_none hreading, ?_⟩
      rw [hregs]
      exact Regs.prepared_tristate (input i) s.regs

theorem dramDq_write (h : s.chip.dq = none ∧ s.regs.tristate = false) :
    dramDq i s = s.regs.dataWrite := by
  rw [dramDq, h.1, h.2]

theorem Ready.image_write (hready : Ready s) (hcmd : s.regs.rstate.cmd = .write) :
    image (System.next i s).chip = image (s.chip.clock masked
      (.write s.regs.bank (s.regs.address.extractLsb' 0 8)) s.regs.dqMasks (dramDq i s)) := by
  have hcommand := hready.command
  rw [hcmd] at hcommand
  show image (s.chip.clock masked s.regs.command _ _) = _
  rw [hcommand]

theorem Stage.wr0 (h : Stage m s B C W T) (hready : Ready s) (hstate : s.regs.rstate = .wr0)
    (hregs : (next i s).regs = Regs.shifttags s.regs { Regs.prepared (input i) s.regs with
      rstate := .wr3
      bank := s.regs.addrBank
      address := setBit s.regs.address 0
      dataWrite := s.regs.reqDataWrite.extractLsb' 0 16
      dqMasks := ~~~ s.regs.reqMask.extractLsb' 0 2 }) : Advances i s m C W T := by
  have hcmd : s.regs.rstate.cmd = .write := by rw [hstate]; rfl
  have hstate' : (next i s).regs.rstate = .wr3 := by rw [hregs]; rfl
  have hfree := h.free.dq (by rw [hstate]; decide)
  have hreading := h.free.reading (by rw [hstate]; decide)
  obtain rfl := h.reads.eq_nil (by rw [hstate]; decide)
  cases h.writes with
  | rest hne => exact absurd hstate hne
  | second hs => cases hs.symm.trans hstate
  | @first r _ hr hm =>
    have hrow := hready.openRow (by rw [hstate]; rfl) hr.toOpened
    refine ⟨[], m, [], [], [r], T ++ (takes i s).toList, .nil m, rfl, ?_, ?_⟩
    · rw [keeps_eq (by rw [hstate]; decide)]
      rfl
    · refine ⟨.empty ?_, .rest (by rw [hstate']; decide), .second hstate' ?_ ?_, ?_, ⟨?_, ?_⟩⟩
      · rw [hregs]
        exact Regs.prepared_dataOutValid (input i) s.regs
      · rw [hregs]
        refine ⟨⟨?_, ?_⟩, hr.we, ?_, ?_, ?_, ?_⟩
        · exact (congrArg bankOf hr.addr).trans rfl
        · exact (Regs.prepared_actRow (input i) s.regs).trans hr.actRow
        · exact hr.tagIn
        · exact congrArg (setBit · 0) hr.address
        · exact congrArg lower hr.data
        · exact congrArg (fun k => ~~~ k.extractLsb' 0 2) hr.mask
      · rw [hready.image_write hcmd, hr.bank, hr.address, column_first, image_first hrow, hm,
          dramDq_write hfree, hr.dataWrite, hr.dqMasks, masked, BitVec.not_not]
      · rw [hregs]
        exact h.waits.prepared.congr rfl rfl rfl rfl rfl rfl
      · exact fun _ => reading_next (by rw [hcmd]; decide)
      · refine fun _ => ⟨dq_next_none hreading, ?_⟩
        rw [hregs]
        exact Regs.prepared_tristate (input i) s.regs

def acknowledged (r : WbRequest) : WbAnswer := ⟨0, r.tag, false⟩

/-- The last clock of a write: `rest` are the requests of the slot that start in it. -/
theorem Stage.wr3 (h : Stage m s B C W T) (hready : Ready s) (hstate : s.regs.rstate = .wr3) :
    ∃ r m', W = [r] ∧ C = [] ∧ effect m r (acknowledged r) m' ∧ image (next i s).chip = m' ∧
      r.we = true ∧ s.regs.tagq = r.tag := by
  have hcmd : s.regs.rstate.cmd = .write := by rw [hstate]; rfl
  have hfree := h.free.dq (by rw [hstate]; decide)
  obtain rfl := h.reads.eq_nil (by rw [hstate]; decide)
  cases h.writes with
  | rest _ hne => exact absurd hstate hne
  | first hs => cases hs.symm.trans hstate
  | @second r _ hr hm =>
    have hrow := hready.openRow (by rw [hstate]; rfl) hr.toOpened
    refine ⟨r, _, rfl, rfl, ⟨rfl, rfl, ?_⟩, rfl, hr.we, hr.tagq⟩
    rw [if_pos hr.we, hready.image_write hcmd, hr.bank, hr.address, column_second,
      image_second hrow, hm, dramDq_write hfree, hr.dataWrite, hr.dqMasks, masked, BitVec.not_not,
      Function.update_idem, Function.update_self, upper_append, lower_append, merge_eq]

theorem valid_written {r : WbRequest} {n : Regs} (hregs : (next i s).regs = n) (hwe : r.we = true)
    (htagq : s.regs.tagq = r.tag) (hvalid : n.dataOutValid = true)
    (htag : n.tagOut = s.regs.tagq) : Valid (next i s) [(r, acknowledged r)] := by
  refine .write ?_ hwe ?_
  · rw [hregs, hvalid]
  · rw [hregs, htag, htagq]
    rfl

/-- Nothing of the slot starts: `kept` is what the clock takes. -/
theorem Stage.wr3Rest (h : Stage m s B C W T) (hready : Ready s) (hstate : s.regs.rstate = .wr3)
    {n : Regs} (hregs : (next i s).regs = n) (hn : n.rstate = .ra2 ∨ n.rstate = .wr2)
    (hvalid : n.dataOutValid = true) (htag : n.tagOut = s.regs.tagq)
    (hwaits : Waits n (T ++ (keeps i s).toList)) : Advances i s m C W T := by
  obtain ⟨r, m', rfl, rfl, heffect, hm', hwe, htagq⟩ := h.wr3 (i := i) hready hstate
  have hcmd : s.regs.rstate.cmd ≠ .read := by rw [hstate]; decide
  have hquiet : Quiet (next i s).regs.rstate := by
    rw [hregs]
    unfold Quiet
    rcases hn with hn | hn <;> rw [hn] <;> decide
  refine ⟨[(r, acknowledged r)], m', [(r, acknowledged r)], [], [], T ++ (keeps i s).toList,
    .cons heffect (.nil m'), rfl, rfl, ?_⟩
  refine ⟨valid_written hregs hwe htagq hvalid htag, .rest hquiet.1, .rest ?_ ?_ hm', ?_,
    ⟨fun _ => reading_next hcmd, fun hmem => absurd hmem hquiet.2⟩⟩
  · intro hwr
    exact hquiet.2 (by rw [hwr]; decide)
  · intro hwr
    exact hquiet.2 (by rw [hwr]; decide)
  · rw [hregs]
    exact hwaits

theorem Stage.wr3Read (h : Stage m s B C W T) (hready : Ready s) (hstate : s.regs.rstate = .wr3)
    (hrd : s.regs.rdPending = true) (hwr : s.regs.wrPending = false)
    (hrow : s.regs.sameRow = true)
    (hregs : (next i s).regs = { Regs.readColumn s.regs
      (Regs.written (input i) s.regs (Regs.prepared (input i) s.regs)) with rstate := .rd0 }) :
    Advances i s m C W T := by
  have hpend : s.regs.pending = true := by simp [Regs.pending, hrd]
  obtain ⟨r, m', rfl, rfl, heffect, hm', hwe, htagq⟩ := h.wr3 (i := i) hready hstate
  obtain ⟨q, rfl, hslot, hread⟩ := h.waits.read hrd
  have hstate' : (next i s).regs.rstate = .rd0 := by rw [hregs]
  refine ⟨[(r, acknowledged r), (q, fetched (next i s) q)], m', [(r, acknowledged r)],
    [(q, fetched (next i s) q)], [], [],
    .cons heffect (.cons (effect_fetched hread hm') (.nil m')), rfl, ?_, ?_⟩
  · rw [keeps_pending hpend]
    rfl
  · refine ⟨valid_written hregs hwe htagq rfl rfl, .first hstate' ?_,
      .rest (by rw [hstate']; decide) (by rw [hstate']; decide) hm', ?_,
      .of_state (by rw [hstate']; decide)⟩
    · exact readFirst_next hregs hslot hread hrow rfl (Regs.prepared_actRow (input i) s.regs) rfl
        rfl rfl
    · rw [hregs]
      exact waits_empty rfl ((takes_prepared hpend).2.trans hwr)

theorem Stage.wr3Write (h : Stage m s B C W T) (hready : Ready s) (hstate : s.regs.rstate = .wr3)
    (hrd : s.regs.rdPending = false) (hwr : s.regs.wrPending = true)
    (hrow : s.regs.sameRow = true)
    (hregs : (next i s).regs = { Regs.writeColumn s.regs
      (Regs.written (input i) s.regs (Regs.prepared (input i) s.regs)) with rstate := .wr0 }) :
    Advances i s m C W T := by
  have hpend : s.regs.pending = true := by simp [Regs.pending, hwr]
  have hcmd : s.regs.rstate.cmd ≠ .read := by rw [hstate]; decide
  have hreading := h.free.reading (by rw [hstate]; decide)
  obtain ⟨r, m', rfl, rfl, heffect, hm', hwe, htagq⟩ := h.wr3 (i := i) hready hstate
  obtain ⟨q, rfl, hslot, hwrite⟩ := h.waits.write hwr
  have hstate' : (next i s).regs.rstate = .wr0 := by rw [hregs]
  refine ⟨[(r, acknowledged r)], m', [(r, acknowledged r)], [], [q], [],
    .cons heffect (.nil m'), rfl, ?_, ?_⟩
  · rw [keeps_pending hpend]
    rfl
  · refine ⟨valid_written hregs hwe htagq rfl rfl, .rest (by rw [hstate']; decide),
      .first hstate' ?_ hm', ?_, ⟨fun _ => reading_next hcmd, ?_⟩⟩
    · exact writeFirst_next hregs hslot hwrite hrow rfl (Regs.prepared_actRow (input i) s.regs) rfl
        rfl rfl rfl (slot_prepared hpend)
    · rw [hregs]
      exact waits_empty ((takes_prepared hpend).1.trans hrd) rfl
    · refine fun _ => ⟨dq_next_none hreading, ?_⟩
      rw [hregs]
      rfl

/-! The reads go on. -/

theorem Reads.second_of (h : Reads s C) (hs : s.regs.rstate ∈ [.rd1, .rd4]) :
    ∃ p, C = [p] ∧ ReadSecond s p := by
  simp only [List.mem_cons, List.not_mem_nil, or_false] at hs
  cases h with
  | @second p _ hp => exact ⟨p, rfl, hp⟩
  | rest h => rcases hs with hs | hs <;> rw [hs] at h <;> exact absurd h (by decide)
  | again h => rcases hs with hs | hs <;> rw [hs] at h <;> exact absurd h (by decide)
  | first h => rcases hs with hs | hs <;> cases h.symm.trans hs
  | last h => rcases hs with hs | hs <;> cases h.symm.trans hs

theorem Stage.rd0 (h : Stage m s B C W T) (hready : Ready s) (hstate : s.regs.rstate = .rd0)
    (hregs : (next i s).regs = { Regs.prepared (input i) s.regs with
      rstate := .rd1, tristate := true, dqMasks := 0, address := setBit s.regs.address 0 }) :
    Advances i s m C W T := by
  have hcmd : s.regs.rstate.cmd = .read := by rw [hstate]; rfl
  have hstate' : (next i s).regs.rstate = .rd1 := by rw [hregs]
  obtain ⟨rfl, hm⟩ := h.writes.eq_nil (by rw [hstate]; decide)
  have hm' : image (next i s).chip = m := (image_next (by rw [hcmd]; decide)).trans hm
  cases h.reads with
  | rest hne => rw [hstate] at hne; exact absurd hne (by decide)
  | second hs => rw [hstate] at hs; exact absurd hs (by decide)
  | again hs => rw [hstate] at hs; exact absurd hs (by decide)
  | last hs => cases hs.symm.trans hstate
  | @first p _ hp =>
    refine ⟨[], m, [], [p], [], T ++ (takes i s).toList, .nil m, rfl, ?_, ?_⟩
    · rw [keeps_eq (by rw [hstate]; decide)]
      rfl
    · refine ⟨.empty ?_, .second (by rw [hstate']; decide) ?_,
        .rest (by rw [hstate']; decide) (by rw [hstate']; decide) hm', ?_,
        .of_state (by rw [hstate']; decide)⟩
      · rw [hregs]
        exact Regs.prepared_dataOutValid (input i) s.regs
      · exact readSecond_next hregs hready hp hcmd (Regs.prepared_bank (input i) s.regs)
          (Regs.prepared_actRow (input i) s.regs) (Regs.prepared_tagq (input i) s.regs) rfl rfl
      · rw [hregs]
        exact h.waits.prepared.congr rfl rfl rfl rfl rfl rfl

theorem Stage.again (h : Stage m s B C W T) (hready : Ready s) {after : State}
    (hstate : (s.regs.rstate, after) ∈ [(.rd1, .rd3), (.rd4, .rd5)])
    (hrd : s.regs.rdPending = true) (hrow : s.regs.sameRow = true)
    (hregs : (next i s).regs = Regs.shifttags s.regs { Regs.readColumn s.regs
      { Regs.prepared (input i) s.regs with tristate := true } with
        rstate := after, dataWrite := i.x.dataWrite }) : Advances i s m C W T := by
  have hpend : s.regs.pending = true := by simp [Regs.pending, hrd]
  have hwr : s.regs.wrPending = false := by simpa [hrd] using hready.one
  have hmem : s.regs.rstate ∈ [.rd1, .rd4] ∧ after ∈ [.rd3, .rd5] := by
    simp only [List.mem_cons, List.not_mem_nil, or_false, Prod.mk.injEq] at hstate ⊢
    exact ⟨hstate.imp And.left And.left, hstate.imp And.right And.right⟩
  have hstate' : (next i s).regs.rstate = after := by rw [hregs]; rfl
  obtain ⟨hcmd, hopen, hW⟩ : s.regs.rstate.cmd = .read ∧ s.regs.rstate.opened = true ∧
      s.regs.rstate ∉ [.wr0, .wr3] := by
    have hfirst := hmem.1
    revert hfirst
    cases s.regs.rstate <;> decide
  obtain ⟨hA, hwr0, hwr3⟩ : after ∉ [.ra2, .wr0, .wr3] ∧ after ≠ .wr0 ∧ after ≠ .wr3 := by
    have hsecond := hmem.2
    revert hsecond
    cases after <;> decide
  obtain ⟨rfl, hm⟩ := h.writes.eq_nil hW
  have hm' : image (next i s).chip = m := (image_next (by rw [hcmd]; decide)).trans hm
  obtain ⟨p, rfl, hp⟩ := h.reads.second_of hmem.1
  obtain ⟨q, rfl, hslot, hread⟩ := h.waits.read hrd
  have hbank : s.regs.addrBank = s.regs.bank := Regs.bank_of_sameRow hrow
  refine ⟨[(q, fetched (next i s) q)], m, [], [p, (q, fetched (next i s) q)], [], [],
    .cons (effect_fetched hread hm') (.nil m), rfl, ?_, ?_⟩
  · rw [keeps_pending hpend]
    rfl
  · refine ⟨.empty ?_, .again (by rw [hstate']; exact hmem.2) ?_ ?_,
      .rest (by rw [hstate']; exact hwr0) (by rw [hstate']; exact hwr3) hm', ?_,
      .of_state (by rw [hstate']; exact hA)⟩
    · rw [hregs]
      exact Regs.prepared_dataOutValid (input i) s.regs
    · exact readUpper_next hregs hready hp hcmd hopen hbank
        (Regs.prepared_actRow (input i) s.regs) rfl rfl
    · exact readFirst_next hregs hslot hread hrow rfl (Regs.prepared_actRow (input i) s.regs) rfl
        rfl rfl
    · rw [hregs]
      exact waits_empty rfl ((takes_prepared hpend).2.trans hwr)

theorem Stage.last (h : Stage m s B C W T) (hready : Ready s)
    (hstate : s.regs.rstate ∈ [.rd1, .rd4])
    (hregs : (next i s).regs = Regs.shifttags s.regs { Regs.prepared (input i) s.regs with
      rstate := .rd6, dqMasks := 0, tristate := true, address := i.x.address }) :
    Advances i s m C W T := by
  have hstate' : (next i s).regs.rstate = .rd6 := by rw [hregs]; rfl
  obtain ⟨hcmd, hopen, hW, hwr3⟩ : s.regs.rstate.cmd = .read ∧ s.regs.rstate.opened = true ∧
      s.regs.rstate ∉ [.wr0, .wr3] ∧ s.regs.rstate ≠ .wr3 := by
    revert hstate
    cases s.regs.rstate <;> decide
  obtain ⟨rfl, hm⟩ := h.writes.eq_nil hW
  have hm' : image (next i s).chip = m := (image_next (by rw [hcmd]; decide)).trans hm
  obtain ⟨p, rfl, hp⟩ := h.reads.second_of hstate
  refine ⟨[], m, [], [p], [], T ++ (takes i s).toList, .nil m, rfl, ?_, ?_⟩
  · rw [keeps_eq hwr3]
    rfl
  · refine ⟨.empty ?_, .last hstate' ?_,
      .rest (by rw [hstate']; decide) (by rw [hstate']; decide) hm', ?_,
      .of_state (by rw [hstate']; decide)⟩
    · rw [hregs]
      exact Regs.prepared_dataOutValid (input i) s.regs
    · exact readUpper_next hregs hready hp hcmd hopen (Regs.prepared_bank (input i) s.regs)
        (Regs.prepared_actRow (input i) s.regs) rfl rfl
    · rw [hregs]
      exact h.waits.prepared.congr rfl rfl rfl rfl rfl rfl

theorem Stage.capture (h : Stage m s B C W T) (hready : Ready s)
    (hstate : s.regs.rstate ∈ [.rd3, .rd5])
    (hregs : (next i s).regs = { Regs.prepared (input i) s.regs with
      rstate := .rd4
      dqMasks := 0
      address := setBit s.regs.address 0
      tristate := true
      dataOutLow := dramDq i s
      dataOutValid := true }) : Advances i s m C W T := by
  have hstate' : (next i s).regs.rstate = .rd4 := by rw [hregs]
  obtain ⟨hcmd, hopen, hW, hwr3⟩ : s.regs.rstate.cmd = .read ∧ s.regs.rstate.opened = true ∧
      s.regs.rstate ∉ [.wr0, .wr3] ∧ s.regs.rstate ≠ .wr3 := by
    revert hstate
    cases s.regs.rstate <;> decide
  have hwrite : s.regs.rstate.cmd ≠ .write := by rw [hcmd]; decide
  obtain ⟨rfl, hm⟩ := h.writes.eq_nil hW
  have hm' : image (next i s).chip = m := (image_next hwrite).trans hm
  simp only [List.mem_cons, List.not_mem_nil, or_false] at hstate
  cases h.reads with
  | rest hs => rcases hstate with hst | hst <;> rw [hst] at hs <;> exact absurd hs (by decide)
  | second hs => rcases hstate with hst | hst <;> rw [hst] at hs <;> exact absurd hs (by decide)
  | first hs => rcases hstate with hst | hst <;> cases hs.symm.trans hst
  | last hs => rcases hstate with hst | hst <;> cases hs.symm.trans hst
  | @again p q _ hp hq =>
    refine ⟨[], m, [p], [q], [], T ++ (takes i s).toList, .nil m, rfl, ?_, ?_⟩
    · rw [keeps_eq hwr3]
      rfl
    · refine ⟨?_, .second (by rw [hstate']; decide) ?_,
        .rest (by rw [hstate']; decide) (by rw [hstate']; decide) hm', ?_,
        .of_state (by rw [hstate']; decide)⟩
      · exact valid_next hregs hready hp hwrite hopen rfl rfl
          (Regs.prepared_tagOut (input i) s.regs) rfl
      · exact readSecond_next hregs hready hq hcmd (Regs.prepared_bank (input i) s.regs)
          (Regs.prepared_actRow (input i) s.regs) (Regs.prepared_tagq (input i) s.regs) rfl rfl
      · rw [hregs]
        exact h.waits.prepared.congr rfl rfl rfl rfl rfl rfl

theorem Stage.rd6 (h : Stage m s B C W T) (hready : Ready s) (hstate : s.regs.rstate = .rd6)
    (hregs : (next i s).regs = { Regs.prepared (input i) s.regs with
      rstate := .ra2
      dqMasks := 0
      tristate := true
      address := i.x.address
      dataOutLow := dramDq i s
      dataOutValid := true }) : Advances i s m C W T := by
  have hcmd : s.regs.rstate.cmd ≠ .write ∧ s.regs.rstate.cmd ≠ .read := by rw [hstate]; decide
  have hstate' : (next i s).regs.rstate = .ra2 := by rw [hregs]
  obtain ⟨rfl, hm⟩ := h.writes.eq_nil (by rw [hstate]; decide)
  have hm' : image (next i s).chip = m := (image_next hcmd.1).trans hm
  cases h.reads with
  | rest hs => rw [hstate] at hs; exact absurd hs (by decide)
  | second hs => rw [hstate] at hs; exact absurd hs (by decide)
  | again hs => rw [hstate] at hs; exact absurd hs (by decide)
  | first hs => cases hs.symm.trans hstate
  | @last p _ hp =>
    refine ⟨[], m, [p], [], [], T ++ (takes i s).toList, .nil m, rfl, ?_, ?_⟩
    · rw [keeps_eq (by rw [hstate]; decide)]
      rfl
    · refine ⟨?_, .rest (by rw [hstate']; decide),
        .rest (by rw [hstate']; decide) (by rw [hstate']; decide) hm', ?_,
        ⟨fun _ => reading_next hcmd.2, ?_⟩⟩
      · exact valid_next hregs hready hp hcmd.1 (by rw [hstate]; rfl) rfl rfl
          (Regs.prepared_tagOut (input i) s.regs) rfl
      · rw [hregs]
        exact h.waits.prepared.congr rfl rfl rfl rfl rfl rfl
      · rw [hstate']
        exact fun hmem => absurd hmem (by decide)

/-- A clock after the initialisation. -/
theorem Stage.advances (h : Stage m s B C W T) (hready : Ready s) : Advances i s m C W T := by
  have hclock := hready.clock (i := i)
  generalize hregs : (next i s).regs = n at hclock
  cases hclock with
  | idle hs =>
    refine h.quiet (by rw [hs]; unfold Quiet; decide) hregs ?_
    unfold Quiet
    split_ifs <;> decide
  | rest hs =>
    simp only [List.mem_cons, List.not_mem_nil, or_false, Prod.mk.injEq] at hs
    refine h.quiet ?_ hregs ?_ <;> unfold Quiet <;>
      rcases hs with hs | hs | hs | hs | hs | hs | hs | hs | hs | hs <;> simp [hs]
  | stay hs | close hs | wr2 hs =>
    exact h.quiet (by rw [hs]; unfold Quiet; decide) hregs (by unfold Quiet; decide)
  | read hs _ hrd hwr hrow => exact h.read hs hrd hwr hrow hregs
  | write hs _ hrd hwr hrow => exact h.write hs hrd hwr hrow hregs
  | wr0 hs => exact h.wr0 hready hs hregs
  | wr3Stay hs hrf =>
    refine h.wr3Rest hready hs hregs (.inl rfl) rfl rfl ?_
    rw [keeps, drops, hrf, Bool.and_false]
    exact h.waits.prepared.congr rfl rfl rfl rfl rfl rfl
  | wr3Close hs hrf =>
    refine h.wr3Rest hready hs hregs (.inr rfl) rfl rfl ?_
    rw [keeps, drops, hrf, Bool.and_false]
    exact h.waits.prepared.congr rfl rfl rfl rfl rfl rfl
  | wr3Read hs _ hrd hwr hrow => exact h.wr3Read hready hs hrd hwr hrow hregs
  | wr3Write hs _ hrd hwr hrow => exact h.wr3Write hready hs hrd hwr hrow hregs
  | wr3Refresh hs hrf =>
    refine h.wr3Rest hready hs hregs (.inr rfl) rfl rfl ?_
    have hkeeps : keeps i s = none := by simp [keeps, drops, hs, hrf]
    rw [hkeeps, Option.toList_none, List.append_nil]
    exact h.waits.dropped (i := i) rfl rfl rfl rfl rfl rfl
  | rd0 hs => exact h.rd0 hready hs hregs
  | again hs hrd hrow => exact h.again hready hs hrd hrow hregs
  | last hs => exact h.last hready hs hregs
  | capture hs => exact h.capture hready hs hregs
  | rd6 hs => exact h.rd6 hready hs hregs

/-- A clock of the initialisation. -/
theorem Stage.init (h : Stage m s B C W T) (hs : s.regs.rstate.isInit = true)
    (hpos : 0 < s.regs.initCounter.toNat) : Advances i s m C W T := by
  have hquiet : ∀ x : State, x.isInit = true ∨ x = .idle → Quiet x := by
    intro x hx
    unfold Quiet
    revert hx
    cases x <;> decide
  refine h.quiet (hquiet _ (.inl hs)) ((fsm_of_isInit hs).trans (initStep_eq rfl hpos)) ?_
  apply hquiet
  split_ifs
  · exact .inr rfl
  · exact .inl (isInit_initAt _)

end Step

/-! ## Runs -/

section Run

variable (s₀ : System) (inputs : Nat → SystemInput)

/-- The bus, without the requests that are dropped. -/
def exchange : Nat → Exchange WbRequest WbAnswer :=
  Exchange.run (fun n => keeps (inputs n) (run s₀ inputs n)) fun n => (run s₀ inputs n).wbo.answer

variable {s₀ inputs} {i : SystemInput} {s : System} {m₀ m : Image} {A B C : List Transfer}
  {W T : List WbRequest} {x : Exchange WbRequest WbAnswer}

theorem effect_answer {p : Transfer} {v : WbAnswer} (htag : v.tag = p.2.tag) (herr : v.err = false)
    (hdat : p.1.we = false → v.dat = p.2.dat) {m m' : Image} (h : effect m p.1 p.2 m') :
    effect m p.1 v m' := by
  obtain ⟨htag', -, hrest⟩ := h
  refine ⟨htag.trans htag', herr, ?_⟩
  cases hwe : p.1.we with
  | true => simpa [hwe] using hrest
  | false =>
    rw [hwe] at hrest
    exact ⟨(hdat hwe).trans hrest.1, hrest.2⟩

theorem Acked.step (hA : Acked s A)
    (h : Linear.Serves effect m₀ x m (A ++ (B ++ C)) (W ++ T)) (q : Option WbRequest) :
    Linear.Serves effect m₀ (x.step q s.wbo.answer) m (B ++ C) (W ++ T ++ q.toList) := by
  cases hA with
  | empty hack =>
    have hanswer : s.wbo.answer = none := by simp [wbo, Miso.answer, Miso.responds, hack]
    rw [hanswer]
    exact h.take q
  | one hack htag hdat =>
    have hanswer : s.wbo.answer = some ⟨s.wbDatO, s.wbTagO, false⟩ := by
      simp [wbo, Miso.answer, Miso.responds, hack]
    rw [hanswer]
    exact h.give q fun _ _ heffect => effect_answer htag rfl hdat heffect

/-- What the bus has seen, with what is under way. -/
def Served (m₀ : Image) (x : Exchange WbRequest WbAnswer) (s : System) : Prop :=
  ∃ m A B C W T, Acked s A ∧ Stage m s B C W T ∧
    Linear.Serves effect m₀ x m (A ++ (B ++ C)) (W ++ T)

theorem served_next (hA : Acked s A) (hstage : Stage m s B C W T)
    (h : Linear.Serves effect m₀ x m (A ++ (B ++ C)) (W ++ T)) (hadv : Advances i s m C W T) :
    Served m₀ (x.step (keeps i s) s.wbo.answer) (next i s) := by
  obtain ⟨done, m', B', C', W', T', hdone, hout, htodo, hstage'⟩ := hadv
  refine ⟨m', B, B', C', W', T', hstage.valid.acked, hstage', ?_⟩
  have hstep := hA.step h (keeps i s)
  rw [htodo] at hstep
  have hexec := hstep.execute hdone
  rwa [List.append_assoc, hout] at hexec

theorem served_reset {start : BitVec 15} (h : Reset start s) :
    Served (image s.chip) Exchange.empty s := by
  have hstate := h.regs.rstate
  refine ⟨image s.chip, [], [], [], [], [], .empty h.wbAckO,
    ⟨.empty h.regs.dataOutValid, .rest (by rw [hstate]; decide),
      .rest (by rw [hstate]; decide) (by rw [hstate]; decide) rfl,
      waits_empty h.regs.rdPending h.regs.wrPending, .of_state (by rw [hstate]; decide)⟩,
    .empty _⟩

theorem run_served {start : BitVec 15} (hstart : 140 ≤ start.toNat) (h : Reset start s₀) (n : Nat) :
    Served (image s₀.chip) (exchange s₀ inputs n) (run s₀ inputs n) := by
  induction n with
  | zero => exact served_reset h
  | succ n ih =>
    obtain ⟨m, A, B, C, W, T, hA, hstage, hserves⟩ := ih
    refine served_next hA hstage hserves ?_
    cases n with
    | zero =>
      refine hstage.init (by rw [run, Run.states_zero, h.regs.rstate]; rfl) ?_
      rw [run, Run.states_zero, h.regs.initCounter]
      omega
    | succ n =>
      rcases run_phase hstart h inputs n with ⟨k, hinit, -⟩ | ⟨hready, -⟩
      · refine hstage.init (by rw [hinit.rstate, isInit_initAt]) ?_
        rw [hinit.counter]
        exact hinit.pos
      · exact hstage.advances hready

/-- The answers are those of a memory that executes the requests in their order, and none is given
without a request. -/
theorem requests_served {start : BitVec 15} (hstart : 140 ≤ start.toNat) (h : Reset start s₀)
    (inputs : Nat → SystemInput) (n : Nat) :
    (∃ m, Linear.History effect (image s₀.chip) (exchange s₀ inputs n).served m) ∧
      (exchange s₀ inputs n).stray = [] := by
  obtain ⟨m, A, B, C, W, T, -, -, hserves⟩ := @run_served s₀ inputs start hstart h n
  exact ⟨hserves.exists_history, hserves.stray⟩

theorem requests_served_scanning :
    (∃ m, Linear.History effect (image (poweredUp 16384).chip)
      (exchange (poweredUp 16384) scanning 16400).served m) ∧
      (exchange (poweredUp 16384) scanning 16400).stray = [] :=
  requests_served (by decide) (reset_poweredUp 16384) scanning 16400

end Run

end System

end Sdram

end Xtc
