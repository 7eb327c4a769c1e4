import Mathlib.Data.BitVec
import Mathlib.Data.List.TakeWhile
import Mathlib.Tactic

/-!
# Stream — `fread` and `fwrite` of `zstdio.c` over `read` and `write` of `zposix.c`

A device is any machine that, called with an address and a number of bytes, fails or moves some of
them.  `size_t` and `ssize_t` have 32 bits, so a failure, -1, is also the largest count there is.
-/

namespace Xtc

namespace Stream

abbrev SizeT := BitVec 32

inductive Outcome
  | error
  | moved (n : Nat)
  deriving DecidableEq, Repr

def Outcome.ret : Outcome → SizeT
  | .error => -1
  | .moved n => BitVec.ofNat 32 n

/-- One operation of a device: it never moves more than it was asked for. -/
structure Device (σ : Type) where
  call : σ → BitVec 32 → SizeT → Outcome × σ
  moved_le : ∀ s ptr count n, (call s ptr count).1 = .moved n → n ≤ count.toNat

/-- `struct zfops`, as far as streams use it. -/
structure Ops (σ : Type) where
  read : Option (Device σ)
  write : Option (Device σ)

abbrev Fds (σ : Type) := Int → Option (Ops σ)

structure File where
  fd : Int

section Code

variable {σ : Type}

def transfer (op : Option (Device σ)) (s : σ) (buf : BitVec 32) (count : SizeT) : Outcome × σ :=
  match op with
  | none => (.error, s)
  | some device => device.call s buf count

def readOp (fds : Fds σ) (fd : Int) : Option (Device σ) := (fds fd).bind Ops.read

def writeOp (fds : Fds σ) (fd : Int) : Option (Device σ) := (fds fd).bind Ops.write

def fwriteLoop (op : Option (Device σ)) (size : SizeT) : Nat → σ → BitVec 32 → SizeT → SizeT × σ
  | 0, s, _, n => (n, s)
  | nmemb + 1, s, ptrc, n =>
    let r := transfer op s ptrc size
    fwriteLoop op size nmemb r.2 (ptrc + size) (n + r.1.ret)

def fwrite (fds : Fds σ) (s : σ) (ptr : BitVec 32) (size nmemb : SizeT) (stream : Option File) :
    SizeT × σ :=
  match stream with
  | none => (-1, s)
  | some stream =>
    if stream.fd < 0 then (-1, s)
    else fwriteLoop (writeOp fds stream.fd) size nmemb.toNat s ptr 0

def freadLoop (op : Option (Device σ)) (size : SizeT) : Nat → σ → BitVec 32 → SizeT → SizeT × σ
  | 0, s, _, n => (n, s)
  | nmemb + 1, s, ptrc, n =>
    let r := transfer op s ptrc size
    if r.1.ret ≠ size then (n, r.2)
    else freadLoop op size nmemb r.2 (ptrc + size) (n + 1)

def fread (fds : Fds σ) (s : σ) (ptr : BitVec 32) (size nmemb : SizeT) (stream : Option File) :
    SizeT × σ :=
  match stream with
  | none => (-1, s)
  | some stream =>
    if stream.fd < 0 then (-1, s)
    else if size = 1 then
      let r := transfer (readOp fds stream.fd) s ptr nmemb
      let n := r.1.ret
      -- `n` is unsigned, and never below zero
      (if n < 0 then 0 else n, r.2)
    else freadLoop (readOp fds stream.fd) size nmemb.toNat s ptr 0

/-! ## Items -/

/-- How the calls for one item after the other end, if none of them stops the others. -/
def calls (op : Option (Device σ)) (size : SizeT) : Nat → σ → BitVec 32 → List Outcome
  | 0, _, _ => []
  | nmemb + 1, s, ptrc =>
    (transfer op s ptrc size).1 :: calls op size nmemb (transfer op s ptrc size).2 (ptrc + size)

def complete (size : SizeT) (o : Outcome) : Bool := o = .moved size.toNat

/-- The complete items in front of the first error or short transfer, -/
def items (size : SizeT) (os : List Outcome) : List Outcome := os.takeWhile (complete size)

/-- and the calls from there on. -/
def rest (size : SizeT) (os : List Outcome) : List Outcome := os.dropWhile (complete size)

def total (os : List Outcome) : SizeT := os.foldr (fun o n => o.ret + n) 0

def Outcome.bytes : Outcome → Nat
  | .error => 0
  | .moved n => n

/-- The items that `fread` gets: those of one byte are asked for all at once. -/
def freadItems (op : Option (Device σ)) (s : σ) (ptr : BitVec 32) (size nmemb : SizeT) : Nat :=
  if size = 1 then (transfer op s ptr nmemb).1.bytes
  else (items size (calls op size nmemb.toNat s ptr)).length

def fwriteItems (op : Option (Device σ)) (s : σ) (ptr : BitVec 32) (size nmemb : SizeT) : Nat :=
  (items size (calls op size nmemb.toNat s ptr)).length

/-- A call that returns the number of items, and this is one of those asked for. -/
def Counts (returned : SizeT) (items : Nat) (nmemb : SizeT) : Prop :=
  returned.toNat = items ∧ items ≤ nmemb.toNat

end Code

section Loops

variable {σ : Type} {op : Option (Device σ)} {size nmemb n : SizeT} {s : σ} {ptr : BitVec 32}
  {k : Nat} {os : List Outcome}

@[simp] theorem total_nil : total [] = 0 := rfl

@[simp] theorem total_cons (o : Outcome) (os : List Outcome) :
    total (o :: os) = o.ret + total os := rfl

theorem total_append (os os' : List Outcome) : total (os ++ os') = total os + total os' := by
  induction os with
  | nil => simp
  | cons o os ih => rw [List.cons_append, total_cons, total_cons, ih, BitVec.add_assoc]

variable (op size k s ptr) in
theorem length_calls : (calls op size k s ptr).length = k := by
  induction k generalizing s ptr with
  | zero => rfl
  | succ k ih => rw [calls, List.length_cons, ih]

theorem transfer_le (h : (transfer op s ptr size).1 = .moved k) : k ≤ size.toNat := by
  cases op with
  | none => contradiction
  | some device => exact device.moved_le s ptr size k h

variable (op size k s ptr) in
theorem calls_le : ∀ o ∈ calls op size k s ptr, ∀ m, o = .moved m → m ≤ size.toNat := by
  induction k generalizing s ptr with
  | zero => simp [calls]
  | succ k ih =>
    rw [calls, List.forall_mem_cons]
    exact ⟨fun m h => transfer_le h, ih _ _⟩

theorem fwriteLoop_fst : (fwriteLoop op size k s ptr n).1 = n + total (calls op size k s ptr) := by
  induction k generalizing s ptr n with
  | zero => simp [fwriteLoop, calls]
  | succ k ih =>
    rw [fwriteLoop, ih, calls, total_cons, BitVec.add_assoc]

theorem freadLoop_fst : (freadLoop op size k s ptr n).1 =
    n + BitVec.ofNat 32 ((calls op size k s ptr).takeWhile (·.ret = size)).length := by
  induction k generalizing s ptr n with
  | zero => simp [freadLoop, calls]
  | succ k ih =>
    rw [freadLoop, calls]
    by_cases hfull : (transfer op s ptr size).1.ret = size
    · rw [if_neg (not_not.mpr hfull), ih, List.takeWhile_cons_of_pos (by simpa using hfull),
        List.length_cons, BitVec.add_assoc, Nat.add_comm, BitVec.ofNat_add]
      rfl
    · rw [if_pos hfull, List.takeWhile_cons_of_neg (by simpa using hfull)]
      simp

/-! ## Items and values -/

theorem ret_of_complete {o : Outcome} (h : complete size o = true) : o.ret = size := by
  have ho : o = .moved size.toNat := of_decide_eq_true h
  rw [ho, Outcome.ret, BitVec.ofNat_toNat, BitVec.setWidth_eq]

/-- Only a failure can be taken for a complete item. -/
theorem ret_eq_size_iff {o : Outcome} (hle : ∀ m, o = .moved m → m ≤ size.toNat)
    (hshort : complete size o = false) : o.ret = size ↔ o = .error ∧ size = -1 := by
  cases o with
  | error =>
    rw [Outcome.ret, eq_comm]
    simp
  | moved m =>
    have hm := hle m rfl
    have hlt := size.isLt
    constructor
    · intro hret
      have hval : m = size.toNat := by
        rw [← hret, Outcome.ret, BitVec.toNat_ofNat, Nat.mod_eq_of_lt (by omega)]
      rw [hval] at hshort
      simp [complete] at hshort
    · rintro ⟨h, -⟩
      contradiction

theorem length_takeWhile_eq_iff {α : Type} {p q : α → Bool} (hpq : ∀ x, p x = true → q x = true)
    (l : List α) : (l.takeWhile q).length = (l.takeWhile p).length ↔
      ∀ x, (l.dropWhile p).head? = some x → q x = false := by
  induction l with
  | nil => simp
  | cons a l ih =>
    by_cases hp : p a = true
    · rw [List.takeWhile_cons_of_pos hp, List.takeWhile_cons_of_pos (hpq a hp),
        List.dropWhile_cons_of_pos hp, List.length_cons, List.length_cons, Nat.add_right_cancel_iff]
      exact ih
    · rw [List.takeWhile_cons_of_neg hp, List.dropWhile_cons_of_neg hp]
      cases hq : q a with
      | true => simp [List.takeWhile_cons_of_pos hq, hq]
      | false => simp [hq]

theorem length_items_le (size : SizeT) (os : List Outcome) : (items size os).length ≤ os.length :=
  (List.takeWhile_prefix _).length_le

theorem total_items (size : SizeT) (os : List Outcome) :
    total (items size os) = size * BitVec.ofNat 32 (items size os).length := by
  have hall : ∀ o ∈ items size os, complete size o = true := fun o h => List.mem_takeWhile_imp h
  generalize items size os = l at hall
  induction l with
  | nil => simp
  | cons o l ih =>
    rw [List.forall_mem_cons] at hall
    rw [total_cons, ih hall.2, ret_of_complete hall.1, List.length_cons, BitVec.ofNat_add, mul_add,
      BitVec.add_comm]
    exact congrArg _ (mul_one size).symm

theorem total_eq (size : SizeT) (os : List Outcome) :
    total os = size * BitVec.ofNat 32 (items size os).length + total (rest size os) := by
  rw [← total_items, ← total_append, items, rest, List.takeWhile_append_dropWhile]

end Loops

/-! ## When the items are counted -/

/-- `fread` goes wrong where a failure becomes a number: the one call for items of one byte, or the
first incomplete item where an item is as long as the number. -/
def FreadMeets {σ : Type} (op : Option (Device σ)) (s : σ) (ptr : BitVec 32) (size nmemb : SizeT) :
    Prop :=
  if size = 1 then (transfer op s ptr nmemb).1 ≠ .error
  else size = -1 → (rest size (calls op size nmemb.toNat s ptr)).head? ≠ some .error

/-- `fwrite` adds bytes, and goes on behind the first incomplete item.  That it returns the items
all the same is a coincidence: what is added too much must vanish. -/
def FwriteMeets {σ : Type} (op : Option (Device σ)) (s : σ) (ptr : BitVec 32)
    (size nmemb : SizeT) : Prop :=
  (size - 1) * BitVec.ofNat 32 (fwriteItems op s ptr size nmemb) +
    total (rest size (calls op size nmemb.toNat s ptr)) = 0

section Counting

variable {σ : Type} {fds : Fds σ} {stream : File} {s : σ} {ptr : BitVec 32} {size nmemb : SizeT}

theorem counts_bytes_iff {op : Option (Device σ)} :
    Counts (transfer op s ptr nmemb).1.ret (transfer op s ptr nmemb).1.bytes nmemb ↔
      (transfer op s ptr nmemb).1 ≠ .error := by
  cases hout : (transfer op s ptr nmemb).1 with
  | error => simp [Counts, Outcome.ret, Outcome.bytes]
  | moved m =>
    have hm := transfer_le hout
    have hlt := nmemb.isLt
    simp only [Counts, Outcome.ret, Outcome.bytes, BitVec.toNat_ofNat, ne_eq, reduceCtorEq,
      not_false_eq_true, iff_true]
    exact ⟨Nat.mod_eq_of_lt (by omega), hm⟩

/-- A call for each item. -/
theorem counts_items_iff {op : Option (Device σ)} :
    Counts (freadLoop op size nmemb.toNat s ptr 0).1
        (items size (calls op size nmemb.toNat s ptr)).length nmemb ↔
      (size = -1 → (rest size (calls op size nmemb.toNat s ptr)).head? ≠ some .error) := by
  have hle := calls_le op size s ptr nmemb.toNat
  have hlen := length_calls op size s ptr nmemb.toNat
  rw [freadLoop_fst]
  generalize calls op size nmemb.toNat s ptr = os at hle hlen
  have hitems := length_items_le size os
  have htaken : (os.takeWhile (·.ret = size)).length ≤ os.length :=
    (List.takeWhile_prefix _).length_le
  have hlt := nmemb.isLt
  have hreturned : (0 + BitVec.ofNat 32 (os.takeWhile (·.ret = size)).length).toNat =
      (os.takeWhile (·.ret = size)).length := by
    rw [zero_add, BitVec.toNat_ofNat, Nat.mod_eq_of_lt (by omega)]
  rw [Counts, hreturned, items, and_iff_left (by rw [items] at hitems; omega),
    length_takeWhile_eq_iff fun o h => by simpa using ret_of_complete h]
  have hhead : ∀ o, (rest size os).head? = some o → (o.ret = size ↔ o = .error ∧ size = -1) := by
    intro o ho
    have hmem : o ∈ os := (List.dropWhile_sublist _).subset (List.mem_of_head? ho)
    apply ret_eq_size_iff (hle o hmem)
    have := List.head?_dropWhile_not (complete size) os
    rw [rest] at ho
    simpa [ho] using this
  constructor
  · intro h hmax herror
    have hno := h .error herror
    rw [decide_eq_false_iff_not, hhead .error herror] at hno
    exact hno ⟨rfl, hmax⟩
  · intro h o ho
    rw [decide_eq_false_iff_not, hhead o ho]
    rintro ⟨rfl, hmax⟩
    exact h hmax ho

theorem fread_counts_iff (hopen : 0 ≤ stream.fd) :
    Counts (fread fds s ptr size nmemb (some stream)).1
        (freadItems (readOp fds stream.fd) s ptr size nmemb) nmemb ↔
      FreadMeets (readOp fds stream.fd) s ptr size nmemb := by
  rw [fread, if_neg (by omega), freadItems, FreadMeets]
  split_ifs with hone
  · have hsign : ∀ n : SizeT, (if n < 0 then 0 else n) = n := fun n => if_neg BitVec.not_lt_zero
    simp only [hsign]
    exact counts_bytes_iff
  · exact counts_items_iff

theorem fwrite_counts_iff (hopen : 0 ≤ stream.fd) :
    Counts (fwrite fds s ptr size nmemb (some stream)).1
        (fwriteItems (writeOp fds stream.fd) s ptr size nmemb) nmemb ↔
      FwriteMeets (writeOp fds stream.fd) s ptr size nmemb := by
  have hle : fwriteItems (writeOp fds stream.fd) s ptr size nmemb ≤ nmemb.toNat :=
    (length_items_le _ _).trans (length_calls ..).le
  have hlt := nmemb.isLt
  rw [fwrite, if_neg (by omega), fwriteLoop_fst, zero_add, total_eq size, FwriteMeets, Counts,
    and_iff_left hle]
  generalize total (rest size _) = r
  change (size * BitVec.ofNat 32 (fwriteItems _ s ptr size nmemb) + r).toNat = _ ↔ _
  generalize fwriteItems (writeOp fds stream.fd) s ptr size nmemb = m at hle
  have hm : (BitVec.ofNat 32 m).toNat = m := by
    rw [BitVec.toNat_ofNat, Nat.mod_eq_of_lt (by omega)]
  have hring : (size - 1) * BitVec.ofNat 32 m + r =
      size * BitVec.ofNat 32 m + r - BitVec.ofNat 32 m := by ring
  rw [hring, sub_eq_zero]
  constructor
  · intro h
    exact BitVec.eq_of_toNat_eq (h.trans hm.symm)
  · intro h
    rw [h, hm]

end Counting

/-- Both functions return the number of complete items exactly where their condition is met. -/
theorem counts_iff {σ : Type} (fds : Fds σ) (stream : File) (s : σ) (ptr : BitVec 32)
    (size nmemb : SizeT) (hopen : 0 ≤ stream.fd) :
    (Counts (fread fds s ptr size nmemb (some stream)).1
        (freadItems (readOp fds stream.fd) s ptr size nmemb) nmemb ↔
      FreadMeets (readOp fds stream.fd) s ptr size nmemb) ∧
    (Counts (fwrite fds s ptr size nmemb (some stream)).1
        (fwriteItems (writeOp fds stream.fd) s ptr size nmemb) nmemb ↔
      FwriteMeets (writeOp fds stream.fd) s ptr size nmemb) :=
  ⟨fread_counts_iff hopen, fwrite_counts_iff hopen⟩

/-- A device that moves all it is asked for, -/
def willing : Device Unit where
  call _ _ count := (.moved count.toNat, ())
  moved_le _ _ count n h := by
    rw [Outcome.moved.injEq] at h
    exact h.ge

/-- and one that always fails. -/
def failing : Device Unit where
  call _ _ _ := (.error, ())
  moved_le _ _ _ _ h := by contradiction

/-- Three items of one byte each. -/
theorem counts_bytes :
    Counts (fread (fun _ => some ⟨some willing, some willing⟩) () 0 1 3 (some ⟨0⟩)).1 3 3 ∧
    Counts (fwrite (fun _ => some ⟨some willing, some willing⟩) () 0 1 3 (some ⟨0⟩)).1 3 3 := by
  have h := counts_iff (fun _ => some ⟨some willing, some willing⟩) ⟨0⟩ () 0 1 3 (by decide)
  have hread : FreadMeets (some willing) () 0 1 3 := by
    unfold FreadMeets
    decide
  have hwrite : FwriteMeets (some willing) () 0 1 3 := by
    unfold FwriteMeets
    decide
  exact ⟨h.1.mpr hread, h.2.mpr hwrite⟩

/-- One item of four bytes is written and counts as four; a read that fails is as many items as
there can be. -/
theorem items_miscounted :
    ¬ Counts (fwrite (fun _ => some ⟨some failing, some willing⟩) () 0 4 1 (some ⟨0⟩)).1
        (fwriteItems (some willing) () 0 4 1) 1 ∧
    ¬ Counts (fread (fun _ => some ⟨some failing, some willing⟩) () 0 1 3 (some ⟨0⟩)).1
        (freadItems (some failing) () 0 1 3) 3 := by
  unfold Counts
  decide

end Stream

end Xtc
