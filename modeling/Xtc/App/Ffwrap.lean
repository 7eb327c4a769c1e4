import Xtc.Lib.Bits
import Xtc.Lib.Comp

/-!
# Ffwrap — reading a file of the SD card, `sd_read` of `ffwrap.c`

`sd_read` asks FatFs for one chunk after the other until it has all it was asked for.  `f_read` is
a parameter of the model: any function from the file object to a result code, bytes and the next
file object.  Addresses are counted from the start of the destination.
-/

namespace Xtc

namespace Ffwrap

open Bits (Byte)

abbrev Memory := Nat → Byte

/-- `data` copied to the address `b`. -/
def store (mem : Memory) (b : Nat) (data : List Byte) : Memory :=
  fun a => if b ≤ a then (data[a - b]?).getD (mem a) else mem a

inductive Fresult
  | ok | notReady | noFile | noPath | invalidName | invalidDrive | denied | exist | rwError
  | writeProtected | notEnabled | noFilesystem | invalidObject | mkfsAborted
  deriving DecidableEq, Repr

def Fresult.code (r : Fresult) : Int := r.ctorIdx

/-- One call of `f_read`: what it returns, what it puts into the buffer, and the file object
behind it. -/
structure Reading (φ : Type) where
  result : Fresult
  data : List Byte
  file : φ

/-- An `f_read` never puts more into the buffer than it was asked for. -/
structure FRead (φ : Type) where
  read : φ → Nat → Reading φ
  length_le : ∀ f btr, (read f btr).data.length ≤ btr

structure State (φ : Type) where
  file : φ
  mem : Memory

/-- The bytes to ask for at once. -/
def chunk (toread : Int) : Nat := if toread ≥ 65535 then 65535 else toread.toNat

section Code

variable {φ : Type} (fRead : FRead φ)

/-- One round of the loop of `sd_read`, with `toread` bytes to go and `b` the next address. -/
def sdReadRound (size : BitVec 32) : Int × Nat → Comp (State φ) ((Int × Nat) ⊕ Int)
  | (toread, b) =>
    if toread > 0 then
      .act fun s =>
        let r := fRead.read s.file (chunk toread)
        let s := ⟨r.file, store s.mem b r.data⟩
        if r.result ≠ .ok then (.inr (-r.result.code), s)
        else (.inl (toread - r.data.length, b + r.data.length), s)
    else pure (.inr size.toInt)

def sdRead (size : BitVec 32) : Comp (State φ) Int :=
  Comp.loop (sdReadRound fRead size) (size.toInt, 0)

end Code

/-! ## FatFs -/

/-- An open file as FatFs sees it: its bytes and its position. -/
structure File where
  content : List Byte
  pos : Nat

def File.left (f : File) : Nat := f.content.length - f.pos

/-- The next bytes of the file, `n` of them or those that are left. -/
def File.next (f : File) (n : Nat) : List Byte := (f.content.drop f.pos).take n

def File.advance (f : File) (n : Nat) : File := { f with pos := f.pos + n }

/-- `f_read` on a file without errors. -/
def fRead : FRead File where
  read f btr := ⟨.ok, f.next btr, f.advance (f.next btr).length⟩
  length_le _ btr := List.length_take_le btr _

/-- `sd_read` comes back with what is left of the file, up to `size` bytes, and has filled as many
bytes of the destination with it. -/
def Reads (f : File) (mem : Memory) (size : BitVec 32) : Prop :=
  ∃ s, (sdRead fRead size).Returns ⟨f, mem⟩ (min size.toNat f.left : Nat) s ∧
    s.mem = store mem 0 (f.next size.toNat)

section Files

variable {f : File} {mem : Memory} {n m : Nat}

@[simp] theorem File.length_next : (f.next n).length = min n f.left := by
  simp [File.next, File.left]

@[simp] theorem File.left_advance : (f.advance n).left = f.left - n := by
  simp only [File.left, File.advance]
  omega

theorem File.next_append : f.next n ++ (f.advance n).next m = f.next (n + m) := by
  rw [File.next, File.next, File.next, File.advance, List.take_add, List.drop_drop]

theorem File.advance_advance : (f.advance n).advance m = f.advance (n + m) := by
  simp only [File.advance, Nat.add_assoc]

@[simp] theorem store_nil (b : Nat) : store mem b [] = mem := by
  funext a
  simp [store]

theorem store_append (d d' : List Byte) :
    store (store mem 0 d) d.length d' = store mem 0 (d ++ d') := by
  funext a
  simp only [store, Nat.zero_le, if_true, Nat.sub_zero, List.getElem?_append]
  by_cases ha : d.length ≤ a
  · rw [if_pos ha, if_neg (by omega), List.getElem?_eq_none ha]
    rfl
  · rw [if_neg ha, if_pos (by omega)]

end Files

/-! ## The loop -/

section Loop

variable {f : File} {mem : Memory} {size : BitVec 32} {toread : Int} {b : Nat}
  {s s' : State File} {x : (Int × Nat) ⊕ Int}

theorem chunk_bounds (h : 0 < toread) : 0 < chunk toread ∧ (chunk toread : Int) ≤ toread := by
  unfold chunk
  split <;> omega

/-- A round that reads, -/
theorem returns_sdReadRound (h : 0 < toread) :
    (sdReadRound fRead size (toread, b)).Returns s x s' ↔
      x = .inl (toread - (s.file.next (chunk toread)).length,
        b + (s.file.next (chunk toread)).length) ∧
      s' = ⟨s.file.advance (s.file.next (chunk toread)).length,
        store s.mem b (s.file.next (chunk toread))⟩ := by
  rw [sdReadRound, if_pos h, Comp.returns_act]
  simp only [fRead, ne_eq, not_true_eq_false, if_false, Prod.mk.injEq, eq_comm]

/-- and the round that ends the loop. -/
theorem returns_sdReadRound_end (h : ¬ 0 < toread) :
    (sdReadRound fRead size (toread, b)).Returns s x s' ↔ x = .inr size.toInt ∧ s' = s := by
  rw [sdReadRound, if_neg h, Comp.returns_pure, eq_comm, eq_comm (a := s)]

/-- At the end of the file every round reads nothing, and there is always another one. -/
theorem sdRead_endless {r : Int} (h : (f.left : Int) < size.toInt) :
    ¬ (sdRead fRead size).Returns ⟨f, mem⟩ r s' := by
  apply Comp.not_returns_loop fun p s => (s.file.left : Int) < p.1
  · rintro ⟨toread, b⟩ s x s' hP hround
    have hpos : 0 < toread := lt_of_le_of_lt (Int.natCast_nonneg _) hP
    obtain ⟨rfl, rfl⟩ := (returns_sdReadRound hpos).mp hround
    refine ⟨_, rfl, ?_⟩
    simp only [File.length_next, File.left_advance] at hP ⊢
    omega
  · exact h

/-- What the rounds keep while there is enough in the file: what has been read is what was in front
of the position, and the destination holds it. -/
structure Reached (f : File) (mem : Memory) (size : Nat) (p : Int × Nat) (s : State File) :
    Prop where
  toread : p.1 = (size - p.2 : Int)
  bound : p.2 ≤ size
  file : s.file = f.advance p.2
  mem : s.mem = store mem 0 (f.next p.2)

theorem Reached.round {p : Int × Nat} (h : Reached f mem size.toNat p s)
    (hleft : size.toNat ≤ f.left) (hpos : 0 < p.1) :
    ∃ p' s', (sdReadRound fRead size p).Returns s (.inl p') s' ∧
      Reached f mem size.toNat p' s' ∧ p'.1.toNat < p.1.toNat := by
  obtain ⟨toread, b⟩ := p
  obtain ⟨htoread, hbound, hfile, hmem⟩ := h
  simp only at htoread hbound hfile hmem hpos
  obtain ⟨hc, hle⟩ := chunk_bounds hpos
  have hlen : (s.file.next (chunk toread)).length = chunk toread := by
    rw [File.length_next, hfile, File.left_advance]
    omega
  have hb : (f.next b).length = b := by
    rw [File.length_next]
    omega
  refine ⟨_, _, (returns_sdReadRound hpos).mpr ⟨rfl, rfl⟩, ⟨?_, ?_, ?_, ?_⟩, ?_⟩
  · simp only [hlen]
    omega
  · simp only [hlen]
    omega
  · simp only [hlen]
    rw [hfile, File.advance_advance]
  · simp only [hlen]
    rw [hmem, hfile, ← File.next_append, ← store_append, hb]
  · simp only [hlen]
    omega

theorem sdRead_reads (hsize : size.toNat < 2 ^ 31) (hleft : size.toNat ≤ f.left) :
    Reads f mem size := by
  have hint : size.toInt = size.toNat := BitVec.toInt_eq_toNat_of_lt (by omega)
  have hstart : Reached f mem size.toNat (size.toInt, 0) ⟨f, mem⟩ :=
    ⟨by simp [hint], Nat.zero_le _, rfl, by simp [File.next]⟩
  have hround : ∀ p s, Reached f mem size.toNat p s →
      (∃ p' s', (sdReadRound fRead size p).Returns s (.inl p') s' ∧
        Reached f mem size.toNat p' s' ∧ p'.1.toNat < p.1.toNat) ∨
      ∃ r s', (sdReadRound fRead size p).Returns s (.inr r) s' ∧
        r = size.toInt ∧ s'.mem = store mem 0 (f.next size.toNat) := by
    intro p s h
    by_cases hpos : 0 < p.1
    · exact Or.inl (h.round hleft hpos)
    · refine Or.inr ⟨_, _, (returns_sdReadRound_end hpos).mpr ⟨rfl, rfl⟩, rfl, ?_⟩
      have hp : p.2 = size.toNat := by
        have htoread := h.toread
        have hbound := h.bound
        omega
      rw [h.mem, hp]
  obtain ⟨r, s, hret, hr, hs⟩ := Comp.loop_returns (Reached f mem size.toNat) _
    (fun p _ => p.1.toNat) hround hstart
  refine ⟨s, ?_, hs⟩
  rw [Nat.min_eq_left hleft, ← hint, ← hr]
  exact hret

end Loop

/-- `sd_read` does what it is for exactly when the file has as many bytes left as are asked for. -/
theorem reads_iff (f : File) (mem : Memory) (size : BitVec 32) (hsize : size.toNat < 2 ^ 31) :
    Reads f mem size ↔ size.toNat ≤ f.left := by
  constructor
  · rintro ⟨s, hret, -⟩
    by_contra hshort
    have hint : size.toInt = size.toNat := BitVec.toInt_eq_toNat_of_lt (by omega)
    exact sdRead_endless (by omega) hret
  · exact sdRead_reads hsize

/-- Two bytes of a file of three. -/
theorem reads_two_of_three :
    Reads ⟨[0x78#8, 0x74#8, 0x63#8], 0⟩ (fun _ => 0#8) 2#32 :=
  (reads_iff ⟨[0x78#8, 0x74#8, 0x63#8], 0⟩ (fun _ => 0#8) 2#32 (by decide)).mpr (by decide)

/-- Two bytes of a file of one: there is no end to it. -/
theorem sdRead_past_end :
    (2#32).toNat < 2 ^ 31 ∧ ¬ Reads ⟨[0x78#8], 0⟩ (fun _ => 0#8) 2#32 ∧
      ∀ r s, ¬ (sdRead fRead 2#32).Returns ⟨⟨[0x78#8], 0⟩, fun _ => 0#8⟩ r s := by
  refine ⟨by decide, ?_, fun r s => sdRead_endless (by decide)⟩
  rintro ⟨s, hret, -⟩
  exact sdRead_endless (by decide) hret

end Ffwrap

end Xtc
