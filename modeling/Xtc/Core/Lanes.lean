import Xtc.Core.Memory
import Xtc.Lib.Bits

/-!
# Lanes — byte memory through the memory stage

A store puts its bytes into their lanes of a word and a mask beside them; a load gets a whole word
and moves its bytes as its tag says.  Over a memory with byte enables both act on bytes: a store
writes the bytes at its addresses, most significant first, and a load reads them back.
-/

namespace Xtc

/-! ## The memory behind the bus -/

abbrev Words := BitVec 30 → Word

def wordOf (a : Word) : BitVec 30 := a.extractLsb 31 2

def byteOffset (a : Word) : Nat := (a.extractLsb 1 0).toNat

/-- The byte at an address; the most significant byte of a word comes first. -/
def byteAt (mem : Words) (a : Word) : BitVec 8 :=
  (mem (wordOf a)).extractLsb' (8 * (3 - byteOffset a)) 8

theorem byteOffset_eq (a : Word) : byteOffset a = a.toNat % 4 := by
  simp [byteOffset, BitVec.extractLsb_toNat]

theorem byteOffset_lt (a : Word) : byteOffset a < 4 := by
  have h := byteOffset_eq a
  omega

theorem wordOf_toNat (a : Word) : (wordOf a).toNat = a.toNat / 4 := by
  have h := a.isLt
  simp [wordOf, BitVec.extractLsb_toNat, Nat.shiftRight_eq_div_pow]
  omega

theorem wordOf_inj {a b : Word} : wordOf a = wordOf b ↔ a.toNat / 4 = b.toNat / 4 := by
  rw [← BitVec.toNat_inj, wordOf_toNat, wordOf_toNat]

theorem byteAt_add (mem : Words) (a : Word) (k : Nat) (h : byteOffset a + k < 4) :
    byteAt mem (a + BitVec.ofNat 32 k) =
      (mem (wordOf a)).extractLsb' (8 * (3 - (byteOffset a + k))) 8 := by
  have ha := a.isLt
  rw [byteOffset_eq] at h
  have hsum : (a + BitVec.ofNat 32 k).toNat = a.toNat + k := by
    rw [BitVec.toNat_add, BitVec.toNat_ofNat]
    omega
  have hword : wordOf (a + BitVec.ofNat 32 k) = wordOf a := by
    rw [wordOf_inj, hsum]
    omega
  have hoff : byteOffset (a + BitVec.ofNat 32 k) = byteOffset a + k := by
    rw [byteOffset_eq, byteOffset_eq, hsum]
    omega
  rw [byteAt, hword, hoff]

theorem byteMask_bit (m : BitVec 4) (k i : Nat) (hk : k < 4) (hi : i < 8) :
    (byteMask m).getLsbD (8 * k + i) = m.getLsbD k := by
  have h : ∀ (m : BitVec 4) (k : Fin 4) (i : Fin 8),
      (byteMask m).getLsbD (8 * k.val + i.val) = m.getLsbD k.val := by decide +kernel
  exact h m ⟨k, hk⟩ ⟨i, hi⟩

theorem merge_lane (m : BitVec 4) (d w : Word) (k : Nat) (hk : k < 4) :
    (merge m d w).extractLsb' (8 * k) 8 =
      if m.getLsbD k then d.extractLsb' (8 * k) 8 else w.extractLsb' (8 * k) 8 := by
  apply BitVec.eq_of_getLsbD_eq
  intro i hi
  have hbit : 8 * k + i < 32 := by omega
  simp only [merge, BitVec.getLsbD_extractLsb', BitVec.getLsbD_or, BitVec.getLsbD_and,
    BitVec.getLsbD_not, byteMask_bit m k i hk hi, hbit, hi]
  cases m.getLsbD k <;> simp [hi]

/-! ## Requests -/

namespace Memory

/-- What the bus takes of the memory registers. -/
structure Request where
  adr : Word
  dat : Word
  sel : BitVec 4
  we : Bool
  tag : Word

/-- The request an access becomes: what `next` puts into the registers of the bus. -/
def placed (e : MemoryAccessInput) : Request :=
  ⟨e.dataAddress, wdata e, wmask e, e.dataWriteenable, tag e⟩

def Request.serve (q : Request) (mem : Words) : Words :=
  if q.we then Function.update mem (wordOf q.adr) (merge q.sel q.dat (mem (wordOf q.adr))) else mem

/-- The answer to a request: the word it addresses, and its tag. -/
def Request.answer (q : Request) (mem : Words) : BusInput :=
  { ack := true, dat := mem (wordOf q.adr), tag := q.tag, err := false, stall := false }

section Access

variable (e : MemoryAccessInput)

def size : Nat := if isByte e.macc then 1 else if isHword e.macc then 2 else 4

def Aligned : Prop := e.dataAddress.toNat % size e = 0

instance : Decidable (Aligned e) := inferInstanceAs (Decidable (_ = _))

def stored (a : Word) : Option (BitVec 8) :=
  if e.dataAddress.toNat ≤ a.toNat ∧ a.toNat < e.dataAddress.toNat + size e then
    some (e.dataWrite.extractLsb' (8 * (size e - 1 - (a.toNat - e.dataAddress.toNat))) 8)
  else none

/-- An access does not go beyond the end of its word. -/
theorem Aligned.fits {e : MemoryAccessInput} (h : Aligned e) :
    byteOffset e.dataAddress + size e ≤ 4 := by
  rw [byteOffset_eq]
  unfold Aligned at h
  unfold size at *
  split_ifs at * <;> omega

theorem address_bit_one : e.dataAddress.getLsbD 1 = decide (2 ≤ byteOffset e.dataAddress) := by
  rw [← BitVec.testBit_toNat, Nat.testBit_eq_decide_div_mod_eq,
    decide_eq_decide, byteOffset_eq]
  omega

theorem Aligned.cases {e : MemoryAccessInput} (h : Aligned e) :
    (isByte e.macc = true ∧ size e = 1 ∧ byteOffset e.dataAddress < 4) ∨
      (isByte e.macc = false ∧ isHword e.macc = true ∧ size e = 2 ∧
        (byteOffset e.dataAddress = 0 ∨ byteOffset e.dataAddress = 2)) ∨
      (isByte e.macc = false ∧ isHword e.macc = false ∧ size e = 4 ∧
        byteOffset e.dataAddress = 0) := by
  have hlt := byteOffset_lt e.dataAddress
  have hoff := byteOffset_eq e.dataAddress
  unfold Aligned size at *
  cases hb : isByte e.macc <;> cases hh : isHword e.macc <;> simp [hb, hh] at h ⊢ <;> omega

theorem Aligned.wmask {e : MemoryAccessInput} (h : Aligned e) (o : Nat) (ho : o < 4) :
    (Memory.wmask e).getLsbD (3 - o) =
      decide (byteOffset e.dataAddress ≤ o ∧ o < byteOffset e.dataAddress + size e) := by
  have hbit := address_bit_one e
  have hoff : (e.dataAddress.extractLsb 1 0).toNat = byteOffset e.dataAddress := rfl
  rcases h.cases with ⟨hb, hs, hlt⟩ | ⟨hb, hh, hs, h0⟩ | ⟨hb, hh, hs, h0⟩
  · simp only [Memory.wmask, hb, if_true, hoff, hs]
    generalize byteOffset e.dataAddress = o0 at hlt
    interval_cases o0 <;> interval_cases o <;> rfl
  · simp only [Memory.wmask, hb, hh, Bool.false_eq_true, if_false, if_true, hbit, hs]
    rcases h0 with h0 | h0 <;> rw [h0] <;> interval_cases o <;> rfl
  · simp only [Memory.wmask, hb, hh, Bool.false_eq_true, if_false, hs, h0]
    interval_cases o <;> rfl

/-- What a store puts into a lane it enables. -/
theorem Aligned.wdata {e : MemoryAccessInput} (h : Aligned e) (o : Nat)
    (ho : byteOffset e.dataAddress ≤ o ∧ o < byteOffset e.dataAddress + size e) :
    (Memory.wdata e).extractLsb' (8 * (3 - o)) 8 =
      e.dataWrite.extractLsb' (8 * (size e - 1 - (o - byteOffset e.dataAddress))) 8 := by
  have hbit := address_bit_one e
  have hoff : (e.dataAddress.extractLsb 1 0).toNat = byteOffset e.dataAddress := rfl
  apply BitVec.eq_of_getLsbD_eq
  intro i hi
  rcases h.cases with ⟨hb, hs, hlt⟩ | ⟨hb, hh, hs, h0⟩ | ⟨hb, hh, hs, h0⟩
  · simp only [Memory.wdata, hb, if_true, hoff, hs] at ho ⊢
    obtain rfl : byteOffset e.dataAddress = o := by omega
    generalize byteOffset e.dataAddress = o0 at hlt
    interval_cases o0 <;>
      simp only [BitVec.getLsbD_extractLsb', BitVec.getLsbD_append, BitVec.getLsbD_extractLsb] <;>
      interval_cases i <;> simp
  · simp only [Memory.wdata, hb, hh, Bool.false_eq_true, if_false, if_true, hbit, hs] at ho ⊢
    rcases h0 with h0 | h0
    all_goals
      rw [h0] at ho ⊢
      obtain ⟨hlo, hhi⟩ := ho
      interval_cases o <;>
        simp only [BitVec.getLsbD_extractLsb', BitVec.getLsbD_append, BitVec.getLsbD_extractLsb,
          Nat.reduceLeDiff, decide_true, decide_false, Bool.false_eq_true, if_true, if_false] <;>
        interval_cases i <;> simp
  · simp only [Memory.wdata, hb, hh, Bool.false_eq_true, if_false, hs, h0, Nat.sub_zero]

end Access

/-! ## What the bytes do -/

theorem Aligned.covers_iff {e : MemoryAccessInput} (h : Aligned e) (a : Word) :
    (e.dataAddress.toNat ≤ a.toNat ∧ a.toNat < e.dataAddress.toNat + size e) ↔
      wordOf a = wordOf e.dataAddress ∧ byteOffset e.dataAddress ≤ byteOffset a ∧
        byteOffset a < byteOffset e.dataAddress + size e := by
  have hfits := h.fits
  rw [wordOf_inj, byteOffset_eq, byteOffset_eq]
  rw [byteOffset_eq] at hfits
  omega

theorem Aligned.byteAt_serve {e : MemoryAccessInput} (h : Aligned e)
    (hwe : e.dataWriteenable = true) (mem : Words) (a : Word) :
    byteAt ((placed e).serve mem) a = (stored e a).getD (byteAt mem a) := by
  have hlt := byteOffset_lt a
  have hserve : (placed e).serve mem = Function.update mem (wordOf e.dataAddress)
      (merge (Memory.wmask e) (Memory.wdata e) (mem (wordOf e.dataAddress))) := by
    simp [Request.serve, placed, hwe]
  rw [hserve, stored]
  simp only [h.covers_iff]
  by_cases hw : wordOf a = wordOf e.dataAddress
  · rw [byteAt, hw, Function.update_self, merge_lane _ _ _ _ (by omega), h.wmask _ hlt]
    by_cases hc : byteOffset e.dataAddress ≤ byteOffset a ∧
        byteOffset a < byteOffset e.dataAddress + size e
    · have hoff : a.toNat - e.dataAddress.toNat = byteOffset a - byteOffset e.dataAddress := by
        have hword := wordOf_inj.mp hw
        rw [byteOffset_eq, byteOffset_eq] at hc ⊢
        omega
      simp [hc, h.wdata _ hc, hoff]
    · simp only [hc, decide_false, Bool.false_eq_true, and_false, if_false, Option.getD_none]
      rw [byteAt, hw]
  · rw [byteAt, Function.update_of_ne hw]
    simp only [hw, false_and, if_false, Option.getD_none]
    rfl

def bigEndian (bytes : Word → BitVec 8) (a : Word) : Nat → Word
  | 0 => 0
  | n + 1 => bigEndian bytes a n <<< 8 ||| (bytes (a + BitVec.ofNat 32 n)).setWidth 32

theorem tag_mrsel (e : MemoryAccessInput) : (tag e).extractLsb 6 5 = (mrsel e).extractLsb 1 0 ∧
    (tag e).extractLsb 8 7 = (mrsel e).extractLsb 3 2 ∧
      (tag e).getLsbD 9 = (mrsel e).getLsbD 4 := by
  refine ⟨?_, ?_, ?_⟩
  · apply BitVec.eq_of_getLsbD_eq
    intro i hi
    simp only [tag, BitVec.getLsbD_extractLsb, BitVec.getLsbD_append]
    interval_cases i <;> simp
  · apply BitVec.eq_of_getLsbD_eq
    intro i hi
    simp only [tag, BitVec.getLsbD_extractLsb, BitVec.getLsbD_append]
    interval_cases i <;> simp
  · simp only [tag, BitVec.getLsbD_append]
    simp

def moved (sel : BitVec 5) (w : Word) : Word :=
  let low : BitVec 8 :=
    match (sel.extractLsb 1 0).toNat with
    | 0 => w.extractLsb 7 0
    | 1 => w.extractLsb 15 8
    | 2 => w.extractLsb 23 16
    | _ => w.extractLsb 31 24
  let mid : BitVec 8 :=
    match (sel.extractLsb 3 2).toNat with
    | 0 => w.extractLsb 15 8
    | 1 => w.extractLsb 31 24
    | _ => 0
  let high : BitVec 16 := if sel.getLsbD 4 then 0 else w.extractLsb 31 16
  high ++ mid ++ low

theorem mdata_answer (e : MemoryAccessInput) (mem : Words) :
    mdata ((placed e).answer mem) = moved (mrsel e) (mem (wordOf e.dataAddress)) := by
  obtain ⟨hlow, hmid, hhigh⟩ := tag_mrsel e
  simp only [mdata, Request.answer, placed, hlow, hmid, hhigh]
  rfl

theorem shift_byte {n : Nat} (x : BitVec n) (y : BitVec 8) :
    x.setWidth 32 <<< 8 ||| y.setWidth 32 = (x ++ y).setWidth 32 := by
  apply BitVec.eq_of_getLsbD_eq
  intro i hi
  simp only [BitVec.getLsbD_or, BitVec.getLsbD_shiftLeft, BitVec.getLsbD_setWidth,
    BitVec.getLsbD_append, hi]
  by_cases h8 : i < 8
  · simp [h8]
  · rw [BitVec.getLsbD_of_ge y i (by omega)]
    simp [h8, show i - 8 < 32 by omega]

theorem bigEndian_one (f : Word → BitVec 8) (a : Word) :
    bigEndian f a 1 = (f (a + 0#32)).setWidth 32 := by
  simp [bigEndian]

theorem bigEndian_two (f : Word → BitVec 8) (a : Word) :
    bigEndian f a 2 = (f (a + 0#32) ++ f (a + 1#32)).setWidth 32 := by
  rw [bigEndian, bigEndian_one, shift_byte]

theorem bigEndian_four (f : Word → BitVec 8) (a : Word) : bigEndian f a 4 =
    (f (a + 0#32) ++ f (a + 1#32) ++ f (a + 2#32) ++ f (a + 3#32)).setWidth 32 := by
  rw [bigEndian, bigEndian, bigEndian_two, shift_byte, shift_byte]

theorem setWidth_byte (x : BitVec 8) : x.setWidth 32 = 0#16 ++ 0#8 ++ x := by
  have h := Bits.append_toNat (0#16 ++ 0#8) x
  apply BitVec.eq_of_toNat_eq
  rw [h]
  simp
  omega

theorem setWidth_bytes (x y : BitVec 8) : (x ++ y).setWidth 32 = 0#16 ++ x ++ y := by
  have h := Bits.append_toNat (0#16 ++ x) y
  have hx := Bits.append_toNat 0#16 x
  have hxy := Bits.append_toNat x y
  apply BitVec.eq_of_toNat_eq
  rw [h, hx, BitVec.toNat_setWidth, hxy]
  simp
  omega

theorem word_bytes (w : Word) : (w.extractLsb' 24 8 ++ w.extractLsb' 16 8 ++ w.extractLsb' 8 8 ++
    w.extractLsb' 0 8).setWidth 32 = w.extractLsb 31 16 ++ w.extractLsb 15 8 ++
      w.extractLsb 7 0 := by
  apply BitVec.eq_of_getLsbD_eq
  intro i hi
  simp only [BitVec.getLsbD_setWidth, BitVec.getLsbD_append, BitVec.getLsbD_extractLsb',
    BitVec.getLsbD_extractLsb]
  interval_cases i <;> simp

/-- A load returns the bytes at its addresses. -/
theorem Aligned.loaded {e : MemoryAccessInput} (h : Aligned e) (mem : Words) :
    mdata ((placed e).answer mem) = bigEndian (byteAt mem) e.dataAddress (size e) := by
  have hbit := address_bit_one e
  have hoff : (e.dataAddress.extractLsb 1 0).toNat = byteOffset e.dataAddress := rfl
  have hbyte := fun k hk => byteAt_add mem e.dataAddress k hk
  rw [mdata_answer]
  generalize mem (wordOf e.dataAddress) = w at *
  rcases h.cases with ⟨hb, hs, hlt⟩ | ⟨hb, hh, hs, h0⟩ | ⟨hb, hh, hs, h0⟩
  · rw [hs, bigEndian_one, hbyte 0 hlt, setWidth_byte]
    obtain h0 | h0 | h0 | h0 : byteOffset e.dataAddress = 0 ∨ byteOffset e.dataAddress = 1 ∨
      byteOffset e.dataAddress = 2 ∨ byteOffset e.dataAddress = 3 := by omega
    all_goals
      simp only [mrsel, hb, if_true, hoff, h0]
      rfl
  · rw [hs, bigEndian_two, hbyte 0 (by omega), hbyte 1 (by omega), setWidth_bytes]
    rcases h0 with h0 | h0
    all_goals
      simp only [mrsel, hb, hh, if_true, Bool.false_eq_true, if_false, hbit, h0]
      rfl
  · rw [hs, bigEndian_four, hbyte 0 (by omega), hbyte 1 (by omega), hbyte 2 (by omega),
      hbyte 3 (by omega)]
    simp only [mrsel, hb, hh, Bool.false_eq_true, if_false, h0]
    exact (word_bytes w).symm

/-! ## Sequences of stores -/

def served (stores : List MemoryAccessInput) (mem : Words) : Words :=
  stores.foldl (fun mem e => (placed e).serve mem) mem

def lastStored (stores : List MemoryAccessInput) (a : Word) : Option (BitVec 8) :=
  stores.reverse.findSome? fun e => stored e a

theorem lastStored_cons (e : MemoryAccessInput) (stores : List MemoryAccessInput) (a : Word) :
    lastStored (e :: stores) a = (lastStored stores a).or (stored e a) := by
  simp [lastStored, List.findSome?_append]

theorem byteAt_served (stores : List MemoryAccessInput)
    (h : ∀ e ∈ stores, e.dataWriteenable = true ∧ Aligned e) (mem : Words) (a : Word) :
    byteAt (served stores mem) a = (lastStored stores a).getD (byteAt mem a) := by
  induction stores generalizing mem with
  | nil => rfl
  | cons e stores ih =>
    obtain ⟨hwe, hal⟩ := h e List.mem_cons_self
    have htail := ih (fun e he => h e (List.mem_cons_of_mem _ he)) ((placed e).serve mem)
    have hserved : served (e :: stores) mem = served stores ((placed e).serve mem) := rfl
    rw [hserved, htail, hal.byteAt_serve hwe, lastStored_cons]
    cases lastStored stores a <;> rfl

/-- After any stores, a load of any width returns the bytes last stored at its addresses, and every
byte of memory is the one last stored there. -/
theorem load_returns_last_stored (mem : Words) (stores : List MemoryAccessInput)
    (hstores : ∀ e ∈ stores, e.dataWriteenable = true ∧ Aligned e) (load : MemoryAccessInput)
    (hload : Aligned load) :
    mdata ((placed load).answer (served stores mem)) =
        bigEndian (fun a => (lastStored stores a).getD (byteAt mem a)) load.dataAddress
          (size load) ∧
      ∀ a, byteAt (served stores mem) a = (lastStored stores a).getD (byteAt mem a) := by
  have hbytes := byteAt_served stores hstores mem
  refine ⟨?_, hbytes⟩
  rw [hload.loaded, funext hbytes]

def access (macc : MemoryAccess) (adr dat : Word) (we : Bool) : MemoryAccessInput where
  macc := macc
  dataAddress := adr
  dataWrite := dat
  dataWriteenable := we
  dataAccess := true
  mwreg := 0
  sprwe := false
  npc := 0
  clrreg := false

/-- A word, then a byte over its second byte; the first halfword is loaded. -/
theorem load_returns_last_stored_hword :
    mdata ((placed (access .hword 0x100 0 false)).answer
      (served [access .word 0x100 0x11223344 true, access .byte 0x101 0x55 true] fun _ => 0)) =
        0x1155 ∧
      mdata ((placed (access .hword 0x100 0 false)).answer
        (served [access .word 0x100 0x11223344 true, access .byte 0x101 0x55 true] fun _ => 0)) =
        bigEndian (fun a => (lastStored [access .word 0x100 0x11223344 true,
          access .byte 0x101 0x55 true] a).getD (byteAt (fun _ => 0) a)) 0x100 2 :=
  ⟨by decide, (load_returns_last_stored (fun _ => 0) _ (by decide)
    (access .hword 0x100 0 false) (by decide)).1⟩

end Memory

end Xtc
