import Xtc.Bus.Wishbone

/-!
# Arbiter — `wbarb2_1.vhd`, two masters on one slave

The bus changes hands in the clock after its owner has lowered `cyc`.
-/

namespace Xtc

structure ArbiterInput where
  m0Wbi : Mosi
  m1Wbi : Mosi
  s0Wbi : Miso

/-- The register `current_master`, true for master 1. -/
structure Arbiter where
  currentMaster : Bool

namespace Arbiter

section Signals

variable (i : ArbiterInput) (s : Arbiter)

def nextMaster : Bool :=
  if s.currentMaster then
    if !i.m1Wbi.cyc && i.m0Wbi.cyc then false else s.currentMaster
  else if !i.m0Wbi.cyc && i.m1Wbi.cyc then true
  else s.currentMaster

def master (m : Bool) : Mosi := if m then i.m1Wbi else i.m0Wbi

def s0Wbo : Mosi := master i s.currentMaster

def wbo (m : Bool) : Miso where
  ack := if s.currentMaster = m then i.s0Wbi.ack else false
  dat := i.s0Wbi.dat
  tag := i.s0Wbi.tag
  err := if s.currentMaster = m then i.s0Wbi.err else false
  stall := if s.currentMaster = m then i.s0Wbi.stall else true

def next : Arbiter where
  currentMaster := nextMaster i s

end Signals

abbrev run (s₀ : Arbiter) (inputs : Nat → ArbiterInput) (n : Nat) : Arbiter :=
  Run.states next s₀ inputs n

/-! ## Exchanges -/

/-- The request the slave takes, with its owner. -/
def takes (i : ArbiterInput) (s : Arbiter) : Option (Bool × WbRequest) :=
  ((s0Wbo i s).taken i.s0Wbi.stall).map fun q => (s.currentMaster, q)

section Exchanges

variable (s₀ : Arbiter) (inputs : Nat → ArbiterInput)

def slaveSide : Nat → Exchange (Bool × WbRequest) WbAnswer :=
  Exchange.run (fun n => takes (inputs n) (run s₀ inputs n)) fun n => (inputs n).s0Wbi.answer

def masterSide (m : Bool) : Nat → Exchange WbRequest WbAnswer :=
  Exchange.run
    (fun n => (master (inputs n) m).taken (wbo (inputs n) (run s₀ inputs n) m).stall)
    fun n => (wbo (inputs n) (run s₀ inputs n) m).answer

theorem slaveSide_succ (n : Nat) : slaveSide s₀ inputs (n + 1) =
    (slaveSide s₀ inputs n).step (takes (inputs n) (run s₀ inputs n)) (inputs n).s0Wbi.answer :=
  rfl

theorem masterSide_succ (m : Bool) (n : Nat) : masterSide s₀ inputs m (n + 1) =
    (masterSide s₀ inputs m n).step
      ((master (inputs n) m).taken (wbo (inputs n) (run s₀ inputs n) m).stall)
      (wbo (inputs n) (run s₀ inputs n) m).answer :=
  rfl

def Holds (m : Bool) : Prop :=
  ∀ n, (masterSide s₀ inputs m n).waiting ≠ [] → (master (inputs n) m).cyc = true

end Exchanges

section Clock

variable {i : ArbiterInput} {s : Arbiter} {m : Bool}

theorem takes_owner {r : Bool × WbRequest} (h : takes i s = some r) : r.1 = s.currentMaster := by
  obtain ⟨_, -, rfl⟩ := Option.map_eq_some_iff.mp h
  rfl

theorem takes_cyc {r : Bool × WbRequest} (h : takes i s = some r) :
    (master i s.currentMaster).cyc = true := by
  obtain ⟨q, hq, -⟩ := Option.map_eq_some_iff.mp h
  unfold Mosi.taken at hq
  split at hq
  · next hc =>
    simp only [Bool.and_eq_true] at hc
    exact hc.1.1
  · cases hq

theorem taken_eq : (master i m).taken (wbo i s m).stall =
    ((takes i s).filter fun q => q.1 == m).map Prod.snd := by
  by_cases h : s.currentMaster = m
  · have htaken : (master i m).taken (wbo i s m).stall = (s0Wbo i s).taken i.s0Wbi.stall := by
      simp [wbo, s0Wbo, h]
    rw [htaken, takes]
    cases (s0Wbo i s).taken i.s0Wbi.stall <;> simp [h]
  · have hnone : (master i m).taken (wbo i s m).stall = none := by
      simp [wbo, Mosi.taken, h]
    rw [hnone, takes]
    cases (s0Wbo i s).taken i.s0Wbi.stall <;> simp [h]

/-- The answer goes to the master whose request is the oldest, if all are the current one's. -/
theorem answer_eq {waiting : List (Bool × WbRequest)}
    (howner : ∀ r ∈ waiting, r.1 = s.currentMaster)
    (hanswer : i.s0Wbi.answer.isSome = true → waiting ≠ []) :
    (wbo i s m).answer =
      if waiting.head?.any (fun q => q.1 == m) then i.s0Wbi.answer else none := by
  by_cases h : s.currentMaster = m
  · have hsame : (wbo i s m).answer = i.s0Wbi.answer := by
      simp [wbo, Miso.answer, Miso.responds, h]
    rw [hsame]
    cases waiting with
    | nil => simpa using hanswer
    | cons r rest =>
      have hr := howner r (List.mem_cons_self ..)
      simp [hr, h]
  · have hnone : (wbo i s m).answer = none := by
      simp [wbo, Miso.answer, Miso.responds, h]
    rw [hnone]
    cases waiting with
    | nil => rfl
    | cons r rest =>
      have hr := howner r (List.mem_cons_self ..)
      simp [hr, h]

theorem nextMaster_of_cyc (h : (master i s.currentMaster).cyc = true) :
    nextMaster i s = s.currentMaster := by
  unfold nextMaster
  cases hm : s.currentMaster <;> simp_all [master]

/-- The bus goes to a master that asks as soon as the other one lets go. -/
theorem nextMaster_of_release (hother : (master i (!m)).cyc = false)
    (hm : (master i m).cyc = true) : nextMaster i s = m := by
  unfold nextMaster
  cases m <;> cases hs : s.currentMaster <;> simp_all [master]

end Clock

/-! ## Ownership -/

section Ownership

variable {s₀ : Arbiter} {inputs : Nat → ArbiterInput} {n : Nat}

/-- Everything on its way belongs to the current master, and each master's side is its part. -/
structure Owned (s₀ : Arbiter) (inputs : Nat → ArbiterInput) (n : Nat) : Prop where
  owner : ∀ q ∈ (slaveSide s₀ inputs n).waiting, q.1 = (run s₀ inputs n).currentMaster
  part : ∀ m, Exchange.Part (fun q => q.1 == m) Prod.snd (slaveSide s₀ inputs n)
    (masterSide s₀ inputs m n)

theorem Owned.owner_offered (h : Owned s₀ inputs n) {r : Bool × WbRequest}
    (hr : r ∈ (slaveSide s₀ inputs n).waiting ++ (takes (inputs n) (run s₀ inputs n)).toList) :
    r.1 = (run s₀ inputs n).currentMaster := by
  obtain hr | hr := List.mem_append.mp hr
  · exact h.owner r hr
  · exact takes_owner (Option.mem_toList.mp hr)

/-- The owner of what is still waiting after the clock had `cyc` in it. -/
theorem Owned.cyc (h : Owned s₀ inputs n) (hmaster : ∀ m, Holds s₀ inputs m)
    {r : Bool × WbRequest} (hr : r ∈ (slaveSide s₀ inputs (n + 1)).waiting) :
    (master (inputs n) (run s₀ inputs n).currentMaster).cyc = true := by
  rw [slaveSide_succ] at hr
  obtain hr | hr := List.mem_append.mp (Exchange.waiting_step_subset hr)
  · apply hmaster
    rw [(h.part _).waiting]
    have hown : (r.1 == (run s₀ inputs n).currentMaster) = true := beq_iff_eq.mpr (h.owner r hr)
    exact List.ne_nil_of_mem (List.mem_map_of_mem (List.mem_filter.mpr ⟨hr, hown⟩))
  · exact takes_cyc (Option.mem_toList.mp hr)

theorem Owned.next (h : Owned s₀ inputs n)
    (hslave : (slaveSide s₀ inputs (n + 1)).stray = []) (hmaster : ∀ m, Holds s₀ inputs m) :
    Owned s₀ inputs (n + 1) := by
  constructor
  · intro r hr
    have hkept : (run s₀ inputs (n + 1)).currentMaster = (run s₀ inputs n).currentMaster :=
      nextMaster_of_cyc (h.cyc hmaster hr)
    rw [hkept]
    rw [slaveSide_succ] at hr
    exact h.owner_offered (Exchange.waiting_step_subset hr)
  · intro m
    rw [slaveSide_succ] at hslave
    rw [slaveSide_succ, masterSide_succ, taken_eq]
    apply (h.part m).step
    exact answer_eq (fun r hr => h.owner_offered hr) (Exchange.stray_step.mp hslave).2

theorem owned (hslave : ∀ n, (slaveSide s₀ inputs n).stray = [])
    (hmaster : ∀ m, Holds s₀ inputs m) (n : Nat) : Owned s₀ inputs n := by
  induction n with
  | zero => exact ⟨fun q hq => absurd hq List.not_mem_nil, fun m => .empty _ _⟩
  | succ n ih => exact ih.next (hslave (n + 1)) hmaster

/-- Each master sees exactly its own requests answered, in order and with the slave's data, and is
granted the bus in the end. -/
theorem served_apart (s₀ : Arbiter) (inputs : Nat → ArbiterInput)
    (hslave : ∀ n, (slaveSide s₀ inputs n).stray = []) (hmaster : ∀ m, Holds s₀ inputs m)
    (m : Bool) :
    (∀ n, Exchange.Part (fun q => q.1 == m) Prod.snd (slaveSide s₀ inputs n)
      (masterSide s₀ inputs m n)) ∧
    ∀ n, (∀ k ≥ n, (master (inputs k) m).cyc = true) →
      (∃ k ≥ n, (master (inputs k) (!m)).cyc = false) →
      ∃ k ≥ n, (run s₀ inputs k).currentMaster = m := by
  refine ⟨fun n => (owned hslave hmaster n).part m, ?_⟩
  rintro n hm ⟨k, hk, hother⟩
  exact ⟨k + 1, by omega, nextMaster_of_release hother (hm k hk)⟩

/-- Master 0 reads, then master 1, which has waited for the bus; both reads are answered at once. -/
def twoReads : Nat → ArbiterInput
  | 0 => ⟨.reading 0x100, .reading 0x200, .answering 7⟩
  | 1 => ⟨.idle, .reading 0x200, .idle⟩
  | 2 => ⟨.idle, .reading 0x200, .answering 8⟩
  | _ => ⟨.idle, .idle, .idle⟩

theorem twoReads_master (n : Nat) : (run ⟨false⟩ twoReads (n + 2)).currentMaster = true := by
  induction n with
  | zero => rfl
  | succ n ih =>
    change nextMaster (twoReads (n + 2)) (run ⟨false⟩ twoReads (n + 2)) = true
    cases n with
    | zero => rfl
    | succ n =>
      unfold nextMaster
      rw [ih]
      rfl

theorem twoReads_slave (n : Nat) : slaveSide ⟨false⟩ twoReads (n + 3) =
    ⟨[], [((false, Mosi.request (.reading 0x100)), ⟨7, 0, false⟩),
      ((true, Mosi.request (.reading 0x200)), ⟨8, 0, false⟩)], []⟩ := by
  induction n with
  | zero => rfl
  | succ n ih =>
    rw [slaveSide_succ, ih]
    simp [takes, s0Wbo, twoReads_master (n + 1), twoReads, master, Mosi.idle, Mosi.taken,
      Miso.idle, Miso.answer, Miso.responds, Exchange.step]

theorem twoReads_waiting (m : Bool) (n : Nat) :
    (masterSide ⟨false⟩ twoReads m n).waiting = [] := by
  induction n with
  | zero => rfl
  | succ n ih =>
    match n with
    | 0 | 1 | 2 => cases m <;> rfl
    | n + 3 =>
      have hidle : master (twoReads (n + 3)) m = .idle := by cases m <;> rfl
      have hquiet : (wbo (twoReads (n + 3)) (run ⟨false⟩ twoReads (n + 3)) m).answer = none := by
        simp [wbo, twoReads, Miso.idle, Miso.answer, Miso.responds]
      rw [masterSide_succ, hidle, hquiet, Exchange.step_none, ih]
      rfl

theorem served_apart_twoReads :
    (masterSide ⟨false⟩ twoReads true 3).served =
      [(Mosi.request (.reading 0x200), ⟨8, 0, false⟩)] := by
  have hslave : ∀ n, (slaveSide ⟨false⟩ twoReads n).stray = [] := by
    intro n
    match n with
    | 0 | 1 | 2 => rfl
    | n + 3 => rw [twoReads_slave]
  have hmaster : ∀ m, Holds ⟨false⟩ twoReads m := fun m n h => absurd (twoReads_waiting m n) h
  rw [((served_apart ⟨false⟩ twoReads hslave hmaster true).1 3).served]
  rfl

end Ownership

end Arbiter

end Xtc
