import Mathlib.Tactic

/-!
# Zfmem — the in-memory files of `libxtcapp/zfmem.c`

A file is a range of memory and a position in it.  `mem_read` and `mem_seek` are translated with
the 32-bit arithmetic they do; over them stands the cursor in a list of bytes that a file is meant
to be, and the calls on which the two agree.
-/

namespace Xtc

namespace Zfmem

structure Memhandle where
  start : BitVec 32
  size : BitVec 32
  /-- Current position -/
  pos : BitVec 32

inductive Whence where
  | set
  | cur
  | end
  deriving DecidableEq

def memcpy (mem : BitVec 32 → BitVec 8) (src n : BitVec 32) : List (BitVec 8) :=
  (List.range n.toNat).map fun i => mem (src + BitVec.ofNat 32 i)

/-- The local `readsize` of `mem_read`; the sum in the test is one of unsigned words. -/
def readSize (h : Memhandle) (size : BitVec 32) : BitVec 32 :=
  if h.pos + size > h.size then h.size - h.pos else size

/-- `mem_read`: the bytes copied, the value returned and the handle afterwards. -/
def memRead (mem : BitVec 32 → BitVec 8) (h : Memhandle) (size : BitVec 32) :
    List (BitVec 8) × BitVec 32 × Memhandle :=
  let readsize := readSize h size
  if readsize = 0 then ([], readsize, h)
  else (memcpy mem (h.start + h.pos) readsize, readsize, { h with pos := h.pos + readsize })

/-- The two tests at the end of `mem_seek`: the first is signed, the second is not. -/
def limit (size newpos : BitVec 32) : BitVec 32 :=
  let newpos := if newpos.slt 0 then 0 else newpos
  if newpos > size then size else newpos

/-- `mem_seek`: the value returned.  The handle is not written. -/
def memSeek (h : Memhandle) (pos : BitVec 32) (whence : Whence) : BitVec 32 :=
  let newpos := match whence with
    | .set => pos
    -- no `break`: `h->pos + pos` is overwritten
    | .cur => h.size + pos
    | .end => h.size + pos
  limit h.size newpos

structure File extends Memhandle where
  pos_le : pos.toNat ≤ size.toNat

inductive Call where
  | read (size : BitVec 32)
  | seek (pos : BitVec 32) (whence : Whence)

/-- What a caller sees of a call: the bytes, the `ssize_t` returned and the position left. -/
structure Reply where
  copied : List (BitVec 8)
  returned : Int
  pos : Nat
  deriving DecidableEq

/-! ## The cursor -/

structure Cursor where
  file : List (BitVec 8)
  pos : Nat

def clamp (size : Nat) (pos : Int) : Nat := (min pos size).toNat

def target (size pos : Nat) (offset : Int) : Whence → Nat
  | .set => clamp size offset
  | .cur => clamp size (pos + offset)
  | .end => clamp size (size + offset)

def Cursor.reply (c : Cursor) : Call → Reply
  | .read size =>
    let count := min size.toNat (c.file.length - c.pos)
    ⟨(c.file.drop c.pos).take count, count, c.pos + count⟩
  | .seek offset whence =>
    let pos := target c.file.length c.pos offset.toInt whence
    ⟨[], pos, pos⟩

def Cursor.replies (c : Cursor) : List Call → List Reply
  | [] => []
  | call :: calls => c.reply call :: { c with pos := (c.reply call).pos }.replies calls

/-! ## A read -/

theorem readSize_toNat (f : File) (n : BitVec 32) :
    (readSize f.toMemhandle n).toNat =
      if f.pos.toNat + n.toNat < 2 ^ 32 then min n.toNat (f.size.toNat - f.pos.toNat)
      else n.toNat := by
  have hle := f.pos_le
  have hn := n.isLt
  have hs := f.size.isLt
  unfold readSize
  simp only [gt_iff_lt, BitVec.lt_def, BitVec.toNat_add]
  by_cases hsum : f.pos.toNat + n.toNat < 2 ^ 32
  · rw [if_pos hsum, Nat.mod_eq_of_lt hsum]
    split
    · rw [BitVec.toNat_sub]
      omega
    · omega
  · rw [if_neg hsum, if_neg (by omega)]

/-- The position stays inside the file, also when the sum wraps. -/
theorem advance_le (f : File) (n : BitVec 32) :
    (f.pos + readSize f.toMemhandle n).toNat ≤ f.size.toNat := by
  have hle := f.pos_le
  have hn := n.isLt
  have hs := f.size.isLt
  rw [BitVec.toNat_add, readSize_toNat]
  split <;> omega

theorem memRead_eq (mem : BitVec 32 → BitVec 8) (h : Memhandle) (n : BitVec 32) :
    memRead mem h n = (memcpy mem (h.start + h.pos) (readSize h n), readSize h n,
      { h with pos := h.pos + readSize h n }) := by
  unfold memRead
  by_cases hz : readSize h n = 0
  · simp [hz, memcpy]
  · exact if_neg hz

/-! ## Files against cursors -/

def File.reply (mem : BitVec 32 → BitVec 8) (f : File) : Call → Reply
  | .read n =>
    let r := memRead mem f.toMemhandle n
    ⟨r.1, r.2.1.toInt, r.2.2.pos.toNat⟩
  | .seek offset whence => ⟨[], (memSeek f.toMemhandle offset whence).toInt, f.pos.toNat⟩

def File.next (mem : BitVec 32 → BitVec 8) (f : File) : Call → File
  | .read n => ⟨(memRead mem f.toMemhandle n).2.2, memRead_eq mem _ n ▸ advance_le f n⟩
  | .seek _ _ => f

def File.replies (mem : BitVec 32 → BitVec 8) (f : File) : List Call → List Reply
  | [] => []
  | call :: calls => f.reply mem call :: (f.next mem call).replies mem calls

def File.contents (mem : BitVec 32 → BitVec 8) (f : File) : List (BitVec 8) :=
  (List.range f.size.toNat).map fun i => mem (f.start + BitVec.ofNat 32 i)

def File.cursor (mem : BitVec 32 → BitVec 8) (f : File) : Cursor := ⟨f.contents mem, f.pos.toNat⟩

section Calls

variable (mem : BitVec 32 → BitVec 8) (f : File)

@[simp] theorem length_contents : (f.contents mem).length = f.size.toNat := by
  simp [File.contents]

theorem next_pos (call : Call) : (f.next mem call).pos.toNat = (f.reply mem call).pos := by
  cases call <;> rfl

theorem next_size (call : Call) : (f.next mem call).size = f.size := by
  cases call with
  | read n => simp [File.next, memRead_eq]
  | seek => rfl

theorem next_contents (call : Call) : (f.next mem call).contents mem = f.contents mem := by
  cases call with
  | read n => simp [File.contents, File.next, memRead_eq]
  | seek => rfl

theorem memcpy_pos {n : BitVec 32} (h : f.pos.toNat + n.toNat ≤ f.size.toNat) :
    memcpy mem (f.start + f.pos) n = ((f.contents mem).drop f.pos.toNat).take n.toNat := by
  apply List.ext_getElem
  · rw [List.length_take, List.length_drop, length_contents, memcpy, List.length_map,
      List.length_range]
    omega
  · intro i _ _
    simp [memcpy, File.contents, BitVec.ofNat_add, BitVec.add_assoc]

/-- When a call is served as the cursor serves it.  A read: the end of the request and the count
returned stay in their types.  A seek, since it moves nothing: the target is the position, and the
sum in its way does not wrap. -/
def File.Meets (f : File) : Call → Prop
  | .read n => f.pos.toNat + n.toNat < 2 ^ 32 ∧ min n.toNat (f.size.toNat - f.pos.toNat) < 2 ^ 31
  | .seek offset whence =>
    target f.size.toNat f.pos.toNat offset.toInt whence = f.pos.toNat ∧
      match whence with
      | .set => True
      | .end => f.size.toNat + offset.toInt < 2 ^ 31
      -- the value returned is the one for the end
      | .cur =>
        if f.size.toNat + offset.toInt < 2 ^ 31 then
          f.pos.toNat = clamp f.size.toNat (f.size.toNat + offset.toInt)
        else f.pos.toNat = 0

theorem read_agrees_iff (n : BitVec 32) :
    f.reply mem (.read n) = (f.cursor mem).reply (.read n) ↔ f.Meets (.read n) := by
  have hsize := readSize_toNat f n
  have hle := f.pos_le
  have hn := n.isLt
  simp only [File.reply, Cursor.reply, File.cursor, memRead_eq, length_contents, Reply.mk.injEq,
    File.Meets]
  constructor
  · rintro ⟨-, hret, -⟩
    rw [BitVec.toInt_eq_toNat_cond] at hret
    split at hsize <;> split at hret <;> omega
  · rintro ⟨hsum, hcount⟩
    rw [if_pos hsum] at hsize
    refine ⟨?_, ?_, ?_⟩
    · rw [memcpy_pos mem f (by omega), hsize]
    · rw [BitVec.toInt_eq_toNat_cond, if_pos (by omega), hsize]
    · rw [BitVec.toNat_add, hsize, Nat.mod_eq_of_lt (by have := f.size.isLt; omega)]

theorem limit_toInt (size newpos : BitVec 32) :
    (limit size newpos).toInt = clamp size.toNat newpos.toInt := by
  have hp := newpos.isLt
  have hval := BitVec.toInt_eq_toNat_cond newpos
  unfold limit clamp
  by_cases hneg : newpos.toInt < 0
  · have hslt : newpos.slt 0 = true := by simpa [BitVec.slt] using hneg
    have hzero : ¬(0 : BitVec 32) > size := by simp [BitVec.lt_def]
    simp only [hslt, if_true, hzero, if_false]
    have hint : (0 : BitVec 32).toInt = 0 := rfl
    omega
  · have hslt : newpos.slt 0 = false := by simpa [BitVec.slt] using hneg
    simp only [hslt, Bool.false_eq_true, if_false, gt_iff_lt, BitVec.lt_def]
    split
    · rw [BitVec.toInt_eq_toNat_cond]
      split <;> omega
    · split at hval <;> omega

theorem toInt_add_size (size offset : BitVec 32) :
    (size + offset).toInt =
      if size.toNat + offset.toInt < 2 ^ 31 then size.toNat + offset.toInt
      else size.toNat + offset.toInt - 2 ^ 32 := by
  have hs := size.isLt
  have ho := offset.isLt
  rw [BitVec.toInt_eq_toNat_cond, BitVec.toInt_eq_toNat_cond, BitVec.toNat_add]
  split <;> split <;> split <;> omega

theorem seek_agrees_iff (offset : BitVec 32) (whence : Whence) :
    f.reply mem (.seek offset whence) = (f.cursor mem).reply (.seek offset whence) ↔
      f.Meets (.seek offset whence) := by
  have hle := f.pos_le
  have hs := f.size.isLt
  have ho := BitVec.toInt_lt (x := offset)
  have ho' := BitVec.le_toInt (x := offset)
  simp only [File.reply, Cursor.reply, File.cursor, length_contents, Reply.mk.injEq, true_and,
    File.Meets, memSeek, limit_toInt]
  cases whence with
  | set =>
    simp only [target, true_and, and_true]
    exact eq_comm
  | cur =>
    simp only [target, clamp, toInt_add_size]
    split <;> omega
  | «end» =>
    simp only [target, clamp, toInt_add_size]
    split <;> omega

theorem reply_agrees_iff (call : Call) :
    f.reply mem call = (f.cursor mem).reply call ↔ f.Meets call := by
  cases call with
  | read n => exact read_agrees_iff mem f n
  | seek offset whence => exact seek_agrees_iff mem f offset whence

end Calls

/-! ## Rows of calls -/

/-- Every call of a row meets its condition in the state it finds. -/
def File.MeetsAll (mem : BitVec 32 → BitVec 8) (f : File) : List Call → Prop
  | [] => True
  | call :: calls => f.Meets call ∧ (f.next mem call).MeetsAll mem calls

theorem replies_pos_le (mem : BitVec 32 → BitVec 8) (f : File) (calls : List Call) :
    ∀ reply ∈ f.replies mem calls, reply.pos ≤ f.size.toNat := by
  induction calls generalizing f with
  | nil => simp [File.replies]
  | cons call calls ih =>
    intro reply hmem
    rw [File.replies, List.mem_cons] at hmem
    rcases hmem with rfl | hmem
    · rw [← next_pos, ← next_size mem f call]
      exact (f.next mem call).pos_le
    · rw [← next_size mem f call]
      exact ih (f.next mem call) reply hmem

/-- A file answers a row of calls as a cursor in its bytes does exactly when every call of the row
meets its condition. -/
theorem replies_cursor_iff (mem : BitVec 32 → BitVec 8) (f : File) (calls : List Call) :
    (∀ reply ∈ f.replies mem calls, reply.pos ≤ f.size.toNat) ∧
        f.replies mem calls = (f.cursor mem).replies calls ↔ f.MeetsAll mem calls := by
  rw [and_iff_right (replies_pos_le mem f calls)]
  induction calls generalizing f with
  | nil => exact ⟨fun _ => trivial, fun _ => rfl⟩
  | cons call calls ih =>
    rw [File.replies, Cursor.replies, List.cons.injEq, File.MeetsAll, reply_agrees_iff]
    -- after a call that agrees, file and cursor stand at the same position
    refine and_congr_right fun hmeets => ?_
    have hcursor : (f.next mem call).cursor mem =
        { f.cursor mem with pos := ((f.cursor mem).reply call).pos } := by
      rw [← (reply_agrees_iff mem f call).mpr hmeets, File.cursor, next_pos, next_contents]
      rfl
    rw [← hcursor]
    exact ih (f.next mem call)

/-- `mem_seek(h, 4, SEEK_SET)` at the start of ten bytes returns 4 and stays at 0; the read behind
it takes the first two bytes. -/
theorem seek_then_read :
    ∃ f : File, f.size = 10 ∧ f.pos = 0 ∧
      f.replies (fun a => a.setWidth 8) [.seek 4 .set, .read 2] = [⟨[], 4, 0⟩, ⟨[0, 1], 2, 2⟩] ∧
      (f.cursor fun a => a.setWidth 8).replies [.seek 4 .set, .read 2] =
        [⟨[], 4, 4⟩, ⟨[4, 5], 2, 6⟩] :=
  ⟨⟨⟨0, 10, 0⟩, by decide⟩, rfl, rfl, by decide, by decide⟩

end Zfmem

end Xtc
