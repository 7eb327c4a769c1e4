import Mathlib.Tactic

/-!
# Slave — a bus slave that answers in order

The slave keeps the requests it has taken and answers the oldest one when it acknowledges.  It may
take a request and answer it in the same clock.
-/

namespace Slave

variable {ρ : Type*}

/-- What can be answered in a clock in which `request` is taken. -/
def offered (pending : List ρ) (request : Option ρ) : List ρ := pending ++ request.toList

def answer (ack : Bool) (requests : List ρ) : Option ρ := if ack then requests.head? else none

def rest (ack : Bool) (requests : List ρ) : List ρ := if ack then requests.tail else requests

@[simp] theorem offered_none (pending : List ρ) : offered pending none = pending := by
  simp [offered]

@[simp] theorem answer_nil (ack : Bool) : answer ack ([] : List ρ) = none := by
  cases ack <;> rfl

@[simp] theorem rest_nil (ack : Bool) : rest ack ([] : List ρ) = [] := by
  cases ack <;> rfl

theorem rest_of_answer_none {ack : Bool} {requests : List ρ} (h : answer ack requests = none) :
    rest ack requests = requests := by
  cases ack with
  | false => rfl
  | true =>
    have : requests = [] := by simpa [answer] using h
    simp [rest, this]

theorem requests_of_answer {ack : Bool} {requests : List ρ} {r : ρ}
    (h : answer ack requests = some r) : requests = r :: rest ack requests := by
  cases ack with
  | false => cases h
  | true =>
    cases requests with
    | nil => cases h
    | cons q qs => exact congrArg (· :: qs) (by simpa [answer] using h)

/-! A burst: the requests `f 0`, `f 1`, and so on, of which `taken` were taken and `acked`
answered. -/

section Burst

variable (f : Nat → ρ) {acked taken : Nat}

def burst (acked taken : Nat) : List ρ := (List.range' acked (taken - acked)).map f

@[simp] theorem burst_self (n : Nat) : burst f n n = [] := by simp [burst]

theorem offered_burst (h : acked ≤ taken) :
    offered (burst f acked taken) (some (f taken)) = burst f acked (taken + 1) := by
  have hlen : taken + 1 - acked = taken - acked + 1 := by omega
  have hlast : acked + (taken - acked) = taken := by omega
  rw [offered, burst, burst, hlen, List.range'_1_concat, List.map_append, hlast]
  rfl

variable {f}

theorem answer_burst {ack : Bool} {r : ρ} (h : answer ack (burst f acked taken) = some r) :
    acked < taken ∧ r = f acked ∧ rest ack (burst f acked taken) = burst f (acked + 1) taken := by
  have hcons := requests_of_answer h
  obtain ⟨m, hm⟩ : ∃ m, taken - acked = m + 1 := by
    cases hm : taken - acked with
    | zero => simp [burst, hm] at hcons
    | succ m => exact ⟨m, rfl⟩
  have hm' : taken - (acked + 1) = m := by omega
  have hburst : burst f acked taken = f acked :: burst f (acked + 1) taken := by
    rw [burst, burst, hm, hm', List.range'_succ, List.map_cons]
  rw [hburst] at hcons ⊢
  obtain ⟨hr, hrest⟩ := List.cons.inj hcons
  exact ⟨by omega, hr.symm, hrest.symm⟩

theorem burst_append {mid : Nat} (hmid : acked ≤ mid) (htaken : mid ≤ taken) :
    burst f acked mid ++ burst f mid taken = burst f acked taken := by
  have hsum : taken - acked = (mid - acked) + (taken - mid) := by omega
  have hmid : acked + (mid - acked) = mid := by omega
  rw [burst, burst, burst, ← List.map_append, hsum, ← List.range'_append_1, hmid]

theorem burst_succ (n : Nat) : burst f n (n + 1) = [f n] := by
  rw [burst, Nat.add_sub_cancel_left]
  rfl

theorem map_burst {τ : Type*} (g : ρ → τ) (acked taken : Nat) :
    (burst f acked taken).map g = burst (fun j => g (f j)) acked taken := by
  rw [burst, burst, List.map_map]
  rfl

theorem burst_add (n d : Nat) : burst f n (n + d) = (List.range d).map fun j => f (n + j) := by
  rw [burst, Nat.add_sub_cancel_left, List.range'_eq_map_range, List.map_map]
  rfl

theorem length_burst (acked taken : Nat) : (burst f acked taken).length = taken - acked := by
  simp [burst]

end Burst

/-! The offsets of a burst that goes round a line of `2 ^ n` words. -/

section Ring

variable {n : Nat}

def ring (first : BitVec n) (j : Nat) : BitVec n := first + BitVec.ofNat n j

@[simp] theorem ring_zero (first : BitVec n) : ring first 0 = first := by simp [ring]

theorem ring_succ (first : BitVec n) (j : Nat) : ring first j + 1 = ring first (j + 1) := by
  rw [ring, ring, BitVec.add_assoc]
  congr 1
  apply BitVec.eq_of_toNat_eq
  simp [BitVec.toNat_add, BitVec.toNat_ofNat]

theorem ring_eq_self {first : BitVec n} {j : Nat} (hj : j < 2 ^ n) (h : ring first j = first) :
    j = 0 := by
  have hzero : BitVec.ofNat n j = 0 := by
    have hsub := congrArg (· - first) h
    simpa [ring, BitVec.add_comm first, BitVec.add_sub_cancel] using hsub
  have hnat := congrArg BitVec.toNat hzero
  rw [BitVec.toNat_ofNat, Nat.mod_eq_of_lt hj] at hnat
  simpa using hnat

theorem exists_ring (first o : BitVec n) : ∃ j < 2 ^ n, ring first j = o := by
  refine ⟨(o - first).toNat, (o - first).isLt, ?_⟩
  rw [ring, BitVec.ofNat_toNat, BitVec.setWidth_eq, BitVec.add_comm, BitVec.sub_add_cancel]

end Ring

end Slave
