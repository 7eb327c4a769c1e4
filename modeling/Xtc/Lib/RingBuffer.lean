import Xtc.Lib.Slave

/-!
# RingBuffer — a queue between two addresses of a memory of `2 ^ n` cells

The queue goes from `rd` up to the cell before `wr`, round the end of the memory.  Equal addresses
are the empty queue, so that one cell is always free.
-/

namespace RingBuffer

variable {n : Nat} {α : Type*} (mem : BitVec n → α) {rd wr : BitVec n}

def contents (rd wr : BitVec n) : List α :=
  (List.range (wr - rd).toNat).map fun j => mem (Slave.ring rd j)

theorem contents_self (rd : BitVec n) : contents mem rd rd = [] := by
  simp [contents]

theorem toNat_sub_one {d : BitVec n} (h : d ≠ 0) : (d - 1).toNat + 1 = d.toNat := by
  have hpos : 0 < d.toNat := by
    rw [Nat.pos_iff_ne_zero]
    intro hzero
    exact h (BitVec.eq_of_toNat_eq (hzero.trans (by simp)))
  have hn : 1 < 2 ^ n := by
    have := d.isLt
    omega
  have hone : (1 : BitVec n).toNat = 1 := by
    rw [BitVec.ofNat_eq_ofNat, BitVec.toNat_ofNat, Nat.mod_eq_of_lt hn]
  have hle : (1 : BitVec n) ≤ d := by
    rw [BitVec.le_def, hone]
    exact hpos
  rw [BitVec.toNat_sub_of_le hle, hone]
  omega

/-- The oldest entry stands at `rd`. -/
theorem contents_cons (h : rd ≠ wr) : contents mem rd wr = mem rd :: contents mem (rd + 1) wr := by
  have hd : wr - rd ≠ 0 := by
    intro hzero
    have := congrArg (· + rd) hzero
    simp only [BitVec.sub_add_cancel] at this
    exact h (by simpa using this.symm)
  have hsub : wr - (rd + 1) = wr - rd - 1 := by
    rw [BitVec.sub_eq_add_neg, BitVec.neg_add, BitVec.sub_eq_add_neg, BitVec.sub_eq_add_neg,
      BitVec.sub_eq_add_neg, BitVec.add_assoc]
  have hlen := toNat_sub_one hd
  rw [contents, contents, hsub, ← hlen, List.range_succ_eq_map, List.map_cons, List.map_map,
    Slave.ring_zero]
  congr 1
  apply List.map_congr_left
  intro j _
  show mem (Slave.ring rd (j + 1)) = mem (Slave.ring (rd + 1) j)
  rw [← Slave.ring_succ, Slave.ring, Slave.ring, BitVec.add_assoc, BitVec.add_assoc,
    BitVec.add_comm 1]

theorem contents_eq_nil_iff : contents mem rd wr = [] ↔ rd = wr := by
  by_cases h : rd = wr
  · simp [h, contents_self]
  · rw [contents_cons mem h]
    simp [h]

/-- A new entry is written at `wr`. -/
theorem contents_concat (h : wr ≠ rd - 1) (x : α) :
    contents (Function.update mem wr x) rd (wr + 1) = contents mem rd wr ++ [x] := by
  have hsub : wr + 1 - rd - 1 = wr - rd := by
    rw [BitVec.sub_eq_add_neg, BitVec.sub_eq_add_neg, BitVec.sub_eq_add_neg, BitVec.add_assoc,
      BitVec.add_assoc, BitVec.add_comm (-rd), ← BitVec.add_assoc 1, ← BitVec.sub_eq_add_neg 1,
      BitVec.sub_self, BitVec.zero_add]
  have hne : wr + 1 - rd ≠ 0 := by
    intro hzero
    have := congrArg (· + rd - 1) hzero
    simp only [BitVec.sub_add_cancel, BitVec.add_sub_cancel] at this
    exact h (by simpa using this)
  have hlen := toNat_sub_one hne
  rw [hsub] at hlen
  have hlast : Slave.ring rd (wr - rd).toNat = wr := by
    rw [Slave.ring, BitVec.ofNat_toNat, BitVec.setWidth_eq, BitVec.add_comm, BitVec.sub_add_cancel]
  rw [contents, contents, ← hlen, List.range_succ, List.map_append, List.map_singleton, hlast,
    Function.update_self]
  congr 1
  apply List.map_congr_left
  intro j hj
  -- no other entry stands at `wr`
  rw [Function.update_of_ne]
  intro heq
  have hj := List.mem_range.mp hj
  have hlt := (wr - rd).isLt
  have hnat : BitVec.ofNat n j = wr - rd := by
    rw [← heq, Slave.ring, BitVec.add_comm, BitVec.add_sub_cancel]
  rw [← hnat, BitVec.toNat_ofNat, Nat.mod_eq_of_lt (by omega)] at hj
  omega

end RingBuffer
