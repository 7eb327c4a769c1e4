import Xtc.Lib.RingBuffer

/-!
# Fifo — `fifo.vhd`

The addresses decide whether the FIFO is empty or full; the outputs `empty`, `full` and `read` are
registers and show the clock before.
-/

namespace Xtc.Uart

structure FifoInput (datawidth : Nat) where
  wr : Bool
  rd : Bool
  write : BitVec datawidth

structure Fifo (bits datawidth : Nat) where
  memory : BitVec bits → BitVec datawidth
  wraddr : BitVec bits
  rdaddr : BitVec bits
  read : BitVec datawidth
  full : Bool
  empty : Bool

namespace Fifo

variable {bits datawidth : Nat} (i : FifoInput datawidth) (f : Fifo bits datawidth)

/-- The variables `empty_v` and `full_v`. -/
def emptyV : Bool := f.rdaddr == f.wraddr

def fullV : Bool := f.wraddr == f.rdaddr - 1

def next : Fifo bits datawidth where
  memory :=
    if i.wr && !fullV f then Function.update f.memory f.wraddr i.write else f.memory
  wraddr := if i.wr && !fullV f then f.wraddr + 1 else f.wraddr
  rdaddr := if i.rd && !emptyV f then f.rdaddr + 1 else f.rdaddr
  read := f.memory f.rdaddr
  full := fullV f
  empty := emptyV f

def contents : List (BitVec datawidth) := RingBuffer.contents f.memory f.rdaddr f.wraddr

def written : Option (BitVec datawidth) := if i.wr && !fullV f then some i.write else none

variable {i f}

theorem contents_eq_nil_iff : f.contents = [] ↔ f.rdaddr = f.wraddr :=
  RingBuffer.contents_eq_nil_iff f.memory

theorem emptyV_iff : f.emptyV = true ↔ f.contents = [] := by
  rw [contents_eq_nil_iff, emptyV, beq_iff_eq]

/-- The register behind `read` is the oldest entry of the clock before. -/
theorem read_next (h : f.contents ≠ []) : f.contents.head? = some (f.next i).read := by
  have hne : f.rdaddr ≠ f.wraddr := fun heq => h (contents_eq_nil_iff.mpr heq)
  rw [contents, RingBuffer.contents_cons f.memory hne]
  rfl

theorem contents_tail (h : f.rdaddr ≠ f.wraddr) :
    RingBuffer.contents f.memory (f.rdaddr + 1) f.wraddr = f.contents.tail := by
  rw [contents, RingBuffer.contents_cons f.memory h, List.tail_cons]

/-- A clock takes the oldest entry away and adds the one that is written. -/
theorem contents_next : (f.next i).contents =
    (if i.rd then f.contents.tail else f.contents) ++ (f.written i).toList := by
  -- the queue after the read side has moved
  have hread : RingBuffer.contents f.memory (f.next i).rdaddr f.wraddr =
      if i.rd then f.contents.tail else f.contents := by
    show RingBuffer.contents f.memory (if i.rd && !emptyV f then f.rdaddr + 1 else f.rdaddr) _ = _
    cases hrd : i.rd with
    | false => rfl
    | true =>
      by_cases hempty : f.rdaddr = f.wraddr
      · have hnil := contents_eq_nil_iff.mpr hempty
        simp [emptyV, hempty, hnil, RingBuffer.contents_self]
      · simpa [emptyV, hempty] using contents_tail hempty
  by_cases hwr : (i.wr && !fullV f) = true
  · have hroom : f.wraddr ≠ (f.next i).rdaddr - 1 := by
      show f.wraddr ≠ (if i.rd && !emptyV f then f.rdaddr + 1 else f.rdaddr) - 1
      split
      · next hrd =>
        rw [BitVec.add_sub_cancel]
        simp only [emptyV, Bool.and_eq_true, Bool.not_eq_true', beq_eq_false_iff_ne] at hrd
        exact hrd.2.symm
      · simp only [fullV, Bool.and_eq_true, Bool.not_eq_true', beq_eq_false_iff_ne] at hwr
        exact hwr.2
    have hconcat := RingBuffer.contents_concat f.memory hroom i.write
    rw [hread] at hconcat
    rw [written, if_pos hwr, contents]
    show RingBuffer.contents (if i.wr && !fullV f then _ else _) _
      (if i.wr && !fullV f then _ else _) = _
    rw [if_pos hwr, if_pos hwr]
    exact hconcat
  · rw [written, if_neg hwr, contents]
    show RingBuffer.contents (if i.wr && !fullV f then _ else _) _
      (if i.wr && !fullV f then _ else _) = _
    rw [if_neg hwr, if_neg hwr, hread, Option.toList_none, List.append_nil]

end Fifo

end Xtc.Uart
