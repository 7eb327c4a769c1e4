import Xtc.Softsim.Guest

/-!
# ByteMemory — the memory of the simulator `softsim` as an array of bytes

Bytes, halfwords and words are kept with their most significant byte first.  Whatever is stored in
whatever widths, a load finds at each of its addresses the byte that was stored there last.
-/

namespace Xtc

namespace Softsim

/-! ## Writes of several bytes -/

def writeBytes (mem : Word → BitVec 8) (a : Word) : List (BitVec 8) → Word → BitVec 8
  | [] => mem
  | b :: bs => writeBytes (Function.update mem a b) (a + 1) bs

theorem writeBytes_apply (bs : List (BitVec 8)) (hlen : bs.length ≤ 2 ^ 32)
    (mem : Word → BitVec 8) (a i : Word) :
    writeBytes mem a bs i = bs.getD (i - a).toNat (mem i) := by
  induction bs generalizing mem a with
  | nil => rfl
  | cons b bs ih =>
    rw [List.length_cons] at hlen
    rw [writeBytes, ih (by omega)]
    have hfrom : (i - a).toNat = (2 ^ 32 - a.toNat + i.toNat) % 2 ^ 32 := BitVec.toNat_sub i a
    have hnext : (i - (a + 1)).toNat = (2 ^ 32 - (a.toNat + 1) % 2 ^ 32 + i.toNat) % 2 ^ 32 := by
      rw [BitVec.toNat_sub, BitVec.toNat_add]
      rfl
    by_cases hi : i = a
    · -- the rest of the bytes ends before the addresses come round
      subst hi
      rw [show (i - i).toNat = 0 by omega, List.getD_cons_zero, Function.update_self,
        List.getD_eq_getElem?_getD, List.getElem?_eq_none (by omega)]
      rfl
    · have hne : i.toNat ≠ a.toNat := fun h => hi (BitVec.eq_of_toNat_eq h)
      rw [show (i - a).toNat = (i - (a + 1)).toNat + 1 by omega, List.getD_cons_succ,
        Function.update_of_ne hi]

def bigEndian (bs : List (BitVec 8)) : Word :=
  BitVec.ofNat 32 (bs.foldl (fun n b => 256 * n + b.toNat) 0)

/-! ## Loads and stores -/

def Access.InRange (a : Access) : Prop := a.aligned = true ∧ a.addr.toNat < memsize

def Width.split (val : Word) : Width → List (BitVec 8)
  | .byte => [val.extractLsb' 0 8]
  | .short => [val.extractLsb' 8 8, val.extractLsb' 0 8]
  | .word => [val.extractLsb' 24 8, val.extractLsb' 16 8, val.extractLsb' 8 8, val.extractLsb' 0 8]

theorem Width.length_split (val : Word) (w : Width) : (w.split val).length = w.bytes := by
  cases w <;> rfl

/-- A call of `handle_store*`, with the registers as they are then. -/
structure Store where
  width : Width
  regs : BitVec 4 → Word
  regAddr : BitVec 4
  regVal : BitVec 4
  offset : Word

namespace Store

def access (s : Store) : Access := ⟨s.width, s.regs s.regAddr + s.offset⟩

def handle (s : Store) : Sim Unit := do
  modifyCpu fun cpu => { cpu with regs := s.regs }
  match s.width with
  | .byte => handleStoreByte s.regAddr s.regVal s.offset
  | .short => handleStoreShort s.regAddr s.regVal s.offset
  | .word => handleStore s.regAddr s.regVal s.offset

def byteAt (s : Store) (i : Word) : Option (BitVec 8) :=
  (s.width.split (s.regs s.regVal))[(i - s.access.addr).toNat]?

end Store

def lastStored (ss : List Store) (i : Word) : Option (BitVec 8) :=
  ss.reverse.findSome? fun s => s.byteAt i

structure Load where
  width : Width
  regs : BitVec 4 → Word
  regAddr : BitVec 4
  offset : Word

namespace Load

def access (l : Load) : Access := ⟨l.width, l.regs l.regAddr + l.offset⟩

def handle (l : Load) : Sim Word := do
  modifyCpu fun cpu => { cpu with regs := l.regs }
  match l.width with
  | .byte => handleReadByte l.regAddr l.offset
  | .short => handleReadShort l.regAddr l.offset
  | .word => handleRead l.regAddr l.offset

end Load

/-! ## One access -/

section Access

variable (a val : Word) (m : Machine)

theorem storeMemU32_memory : ∃ m', storeMemU32 a val m = .ok () m' ∧
    m'.cpu.memory = writeBytes m.cpu.memory a (Width.word.split val) := by
  refine ⟨_, rfl, ?_⟩
  show Function.update (Function.update (Function.update (Function.update m.cpu.memory a _)
    (a + 1) _) (a + 2) _) (a + 3) _ = _
  rw [show a + 2 = a + 1 + 1 by rw [BitVec.add_assoc]; rfl,
    show a + 3 = a + 1 + 1 + 1 by rw [BitVec.add_assoc, BitVec.add_assoc]; rfl]
  rfl

theorem bigEndian_one (b : BitVec 8) : bigEndian [b] = b.setWidth 32 := by
  apply BitVec.eq_of_toNat_eq
  rw [BitVec.toNat_setWidth, bigEndian, BitVec.toNat_ofNat]
  simp only [List.foldl_cons, List.foldl_nil]
  omega

theorem bigEndian_two (b₁ b₀ : BitVec 8) : bigEndian [b₁, b₀] = (b₁ ++ b₀).setWidth 32 := by
  apply BitVec.eq_of_toNat_eq
  rw [BitVec.toNat_setWidth, Bits.append_toNat, bigEndian, BitVec.toNat_ofNat]
  simp only [List.foldl_cons, List.foldl_nil]
  omega

theorem bigEndian_four (b₃ b₂ b₁ b₀ : BitVec 8) :
    bigEndian [b₃, b₂, b₁, b₀] = b₃ ++ b₂ ++ b₁ ++ b₀ := by
  apply BitVec.eq_of_toNat_eq
  rw [Bits.append_toNat, Bits.append_toNat, Bits.append_toNat, bigEndian, BitVec.toNat_ofNat]
  simp only [List.foldl_cons, List.foldl_nil]
  omega

def bytesAt (mem : Word → BitVec 8) (n : Nat) : List (BitVec 8) :=
  (List.range n).map fun k => mem (a + BitVec.ofNat 32 k)

theorem readMemU8_memory :
    ∃ m', readMemU8 a m = .ok (bigEndian (bytesAt a m.cpu.memory 1)) m' := by
  have hbytes : bytesAt a m.cpu.memory 1 = [m.cpu.memory a] := by simp [bytesAt]
  rw [hbytes, bigEndian_one]
  exact ⟨_, rfl⟩

theorem readMemU16_memory :
    ∃ m', readMemU16 a m = .ok (bigEndian (bytesAt a m.cpu.memory 2)) m' := by
  have hbytes : bytesAt a m.cpu.memory 2 = [m.cpu.memory a, m.cpu.memory (a + 1)] := by
    simp [bytesAt, List.range_succ]
  rw [hbytes, bigEndian_two]
  exact ⟨_, rfl⟩

theorem readMemU32_memory :
    ∃ m', readMemU32 a m = .ok (bigEndian (bytesAt a m.cpu.memory 4)) m' := by
  have hbytes : bytesAt a m.cpu.memory 4 = [m.cpu.memory a, m.cpu.memory (a + 1),
      m.cpu.memory (a + 2), m.cpu.memory (a + 3)] := by
    simp [bytesAt, List.range_succ]
  rw [hbytes, bigEndian_four]
  exact ⟨_, rfl⟩

end Access

/-! ## One call -/

theorem accessed_inMemory {α : Type} {a : Access} (h : a.InRange) (inMemory inIo elsewhere : Sim α)
    (m : Machine) :
    accessed a inMemory inIo elsewhere m =
      inMemory { m with accesses := m.accesses ++ [a] } := by
  rw [accessed_eq, if_pos h.1, if_pos h.2]

theorem Store.handle_ok {s : Store} (h : s.access.InRange) (m : Machine) :
    ∃ m', s.handle m = .ok () m' ∧
      m'.cpu.memory =
        writeBytes m.cpu.memory s.access.addr (s.width.split (s.regs s.regVal)) := by
  obtain ⟨width, regs, regAddr, regVal, offset⟩ := s
  let m₀ : Machine := { m with cpu := { m.cpu with regs := regs } }
  cases width with
  | byte =>
    have heq : handleStoreByte regAddr regVal offset m₀ = _ :=
      handleStoreByte_eq.trans (accessed_inMemory h _ _ _ m₀)
    exact ⟨_, heq, rfl⟩
  | short =>
    have heq : handleStoreShort regAddr regVal offset m₀ = _ :=
      handleStoreShort_eq.trans (accessed_inMemory h _ _ _ m₀)
    exact ⟨_, heq, rfl⟩
  | word =>
    have heq : handleStoreVal regAddr (regs regVal) offset m₀ = _ :=
      handleStoreVal_eq.trans (accessed_inMemory h _ _ _ m₀)
    obtain ⟨m', hstore, hmem⟩ := storeMemU32_memory (regs regAddr + offset) (regs regVal)
      { m₀ with accesses := m₀.accesses ++ [⟨.word, regs regAddr + offset⟩] }
    exact ⟨m', heq.trans hstore, hmem⟩

theorem Store.handle_memory {s : Store} (h : s.access.InRange) (m : Machine) :
    ∃ m', s.handle m = .ok () m' ∧
      ∀ i, m'.cpu.memory i = (s.byteAt i).getD (m.cpu.memory i) := by
  obtain ⟨m', hrun, hmem⟩ := handle_ok h m
  refine ⟨m', hrun, fun i => ?_⟩
  rw [hmem, writeBytes_apply, List.getD_eq_getElem?_getD]
  · rfl
  · rw [Width.length_split]
    cases s.width <;> decide

theorem Load.handle_memory {l : Load} (h : l.access.InRange) (m : Machine) :
    ∃ m', l.handle m =
      .ok (bigEndian (bytesAt l.access.addr m.cpu.memory l.width.bytes)) m' := by
  obtain ⟨width, regs, regAddr, offset⟩ := l
  let m₀ : Machine := { m with cpu := { m.cpu with regs := regs } }
  cases width with
  | byte =>
    have heq : handleReadByte regAddr offset m₀ = _ :=
      handleReadByte_eq.trans (accessed_inMemory h _ _ _ m₀)
    obtain ⟨m', hread⟩ := readMemU8_memory (regs regAddr + offset)
      { m₀ with accesses := m₀.accesses ++ [⟨.byte, regs regAddr + offset⟩] }
    exact ⟨m', heq.trans hread⟩
  | short =>
    have heq : handleReadShort regAddr offset m₀ = _ :=
      handleReadShort_eq.trans (accessed_inMemory h _ _ _ m₀)
    obtain ⟨m', hread⟩ := readMemU16_memory (regs regAddr + offset)
      { m₀ with accesses := m₀.accesses ++ [⟨.short, regs regAddr + offset⟩] }
    exact ⟨m', heq.trans hread⟩
  | word =>
    have heq : handleRead regAddr offset m₀ = _ :=
      handleRead_eq.trans (accessed_inMemory h _ _ _ m₀)
    obtain ⟨m', hread⟩ := readMemU32_memory (regs regAddr + offset)
      { m₀ with accesses := m₀.accesses ++ [⟨.word, regs regAddr + offset⟩] }
    exact ⟨m', heq.trans hread⟩

/-! ## Any number of calls -/

theorem lastStored_cons (s : Store) (ss : List Store) (i : Word) :
    lastStored (s :: ss) i = (lastStored ss i).or (s.byteAt i) := by
  rw [lastStored, List.reverse_cons, List.findSome?_append]
  cases h : s.byteAt i <;> simp [lastStored, h]

theorem stores_memory (ss : List Store) (hs : ∀ s ∈ ss, s.access.InRange) (m : Machine) :
    ∃ m', ss.forM Store.handle m = .ok () m' ∧
      ∀ i, m'.cpu.memory i = (lastStored ss i).getD (m.cpu.memory i) := by
  induction ss generalizing m with
  | nil => exact ⟨m, rfl, fun _ => rfl⟩
  | cons s ss ih =>
    obtain ⟨m₁, hstep, hmem₁⟩ := Store.handle_memory (hs s List.mem_cons_self) m
    obtain ⟨m', hrun, hmem⟩ := ih (fun s' hs' => hs s' (List.mem_cons_of_mem s hs')) m₁
    refine ⟨m', ?_, fun i => ?_⟩
    · show EStateM.bind s.handle _ m = _
      rw [EStateM.bind, hstep]
      exact hrun
    · rw [hmem, hmem₁, lastStored_cons]
      cases lastStored ss i <;> rfl

/-- After any stores, a load finds at each address the byte stored there last, or the 0 it was
filled with, and the other bytes keep their value. -/
theorem loads_last_stored (heap : Cpu) (ss : List Store) (hs : ∀ s ∈ ss, s.access.InRange) :
    ∃ m, ss.forM Store.handle ⟨heap.initial, [], [], []⟩ = .ok () m ∧
      (∀ l : Load, l.access.InRange → ∃ m',
        l.handle m = .ok (bigEndian ((List.range l.width.bytes).map fun k =>
          (lastStored ss (l.access.addr + BitVec.ofNat 32 k)).getD 0)) m') ∧
      ∀ i, lastStored ss i = none → m.cpu.memory i = heap.initial.memory i := by
  obtain ⟨m, hrun, hmem⟩ := stores_memory ss hs ⟨heap.initial, [], [], []⟩
  refine ⟨m, hrun, fun l hl => ?_, fun i hi => ?_⟩
  · obtain ⟨m', hload⟩ := Load.handle_memory hl m
    refine ⟨m', hload.trans ?_⟩
    have hmapped : l.access.addr.toNat + l.width.bytes ≤ memsize :=
      Access.mapped_of_lt hl.1 hl.2
    congr 2
    apply List.map_congr_left
    intro k hk
    -- the bytes of the load are in the memory, which was filled with 0
    have hlt : (l.access.addr + BitVec.ofNat 32 k).toNat < memsize :=
      add_lt_memsize (by have := List.mem_range.mp hk; omega)
    have hzero : heap.initial.memory (l.access.addr + BitVec.ofNat 32 k) = 0 := if_pos hlt
    rw [hmem]
    exact congrArg (Option.getD _) hzero
  · rw [hmem, hi]
    rfl

def wordThenByte : List Store :=
  [⟨.word, fun r => if r = 1 then 0x11223344 else 8, 2, 1, 0⟩,
    ⟨.byte, fun r => if r = 1 then 0xAA else 9, 2, 1, 0⟩]

/-- The halfword at 8 then has a byte of each. -/
theorem loads_wordThenByte : ∃ m m',
    wordThenByte.forM Store.handle ⟨loadsBehind.initial, [], [], []⟩ = .ok () m ∧
      (⟨.short, fun _ => 8, 2, 0⟩ : Load).handle m = .ok 0x11AA m' := by
  have hs : ∀ s ∈ wordThenByte, s.access.InRange := by
    unfold wordThenByte Access.InRange
    decide
  obtain ⟨m, hrun, hload, -⟩ := loads_last_stored loadsBehind wordThenByte hs
  obtain ⟨m', hm'⟩ := hload ⟨.short, fun _ => 8, 2, 0⟩ (by unfold Access.InRange; decide)
  exact ⟨m, m', hrun, hm'.trans (congrArg (EStateM.Result.ok · m') (by decide))⟩

end Softsim

end Xtc
