import Xtc.Cache.DcacheTransparent

/-!
# DcacheWriteback — what a write-back puts on the bus

A write-back begins in `preparewb` and lasts as long as the cache stays in `writeback`.  The words
are read a clock ahead and held while the slave stalls.  The state is left on the answer to the only
request outstanding with the counter at zero, and the counter is at zero already while the last word
waits to be taken.
-/

namespace Xtc

namespace Dcache

variable {t l : Nat}

section Trace

variable (s₀ : Dcache t l) (inputs : Nat → DcacheInput t l)

def acceptedOver (n d : Nat) : List (BusRequest t l) :=
  Run.events (fun k => busRequest (inputs k) (run s₀ inputs k)) n d

def answeredOver (n d : Nat) : List (BusRequest t l) :=
  Run.events (fun k => answer (inputs k) (run s₀ inputs k)) n d

/-- A line is prepared in clock `n`, and the `d` clocks after it write it back. -/
structure WritesBack (n d : Nat) : Prop where
  prepares : (run s₀ inputs n).r.state = .preparewb
  writing : ∀ k, n < k → k ≤ n + d → (run s₀ inputs k).r.state = .writeback
  leaves : (run s₀ inputs (n + d + 1)).r.state ≠ .writeback

/-- The words of the line that is prepared in clock `n`, at their addresses. -/
def wholeLine (n : Nat) : List (BusRequest t l) :=
  (List.range 16).map (writebackRequest (run s₀ inputs n))

structure SentWhole (n d : Nat) : Prop where
  accepted : (acceptedOver s₀ inputs (n + 1) d).Perm (wholeLine s₀ inputs n)
  answered : (answeredOver s₀ inputs (n + 1) d).Perm (wholeLine s₀ inputs n)

end Trace

theorem writebackRequest_prepared {i : DcacheInput t l} {s : Dcache t l}
    (hstate : s.r.state = .preparewb) : writebackRequest (next i s) = writebackRequest s := by
  funext j
  rw [writebackRequest, cmem_next_preparewb hstate, r_next_preparewb hstate]
  rfl

theorem writebackEnds_iff {i : DcacheInput t l} {s : Dcache t l} (hstate : s.r.state = .writeback) :
    writebackEnds i s = true ↔ (next i s).r.state ≠ .writeback := by
  by_cases hends : writebackEnds i s = true
  · have hcase : caseNext i s = writebackNext i s := by simp [caseNext, hstate]
    rw [r_next_of hcase]
    cases hflush : s.r.inFlush <;> simp [writebackNext, hends, hflush]
  · rw [r_next_writeback hstate (by simpa using hends)]
    simp [hends, defaults, hstate]

/-- The clocks of a write-back so far: `taken` words are out and `acked` of them answered. -/
structure Sent (s₀ : Dcache t l) (inputs : Nat → DcacheInput t l) (n d taken acked : Nat) :
    Prop where
  burst : WritebackBurst (run s₀ inputs (n + 1 + d)) taken acked
  line : writebackRequest (run s₀ inputs (n + 1 + d)) = writebackRequest (run s₀ inputs n)
  accepted : acceptedOver s₀ inputs (n + 1) d =
    Slave.burst (writebackRequest (run s₀ inputs n)) 0 taken
  answered : answeredOver s₀ inputs (n + 1) d =
    Slave.burst (writebackRequest (run s₀ inputs n)) 0 acked

section Sent

variable {s₀ : Dcache t l} {inputs : Nat → DcacheInput t l} {n d taken acked : Nat}

theorem Sent.start (hreset : Reset s₀) (hstate : (run s₀ inputs n).r.state = .preparewb) :
    Sent s₀ inputs n 0 0 0 := by
  cases control_run hreset inputs n with
  | preparewb _ _ hbus hoffsets hdone =>
    constructor
    case burst => exact .start hstate hbus hoffsets hdone
    case line => exact writebackRequest_prepared hstate
    case accepted => rw [acceptedOver, Run.events_zero, Slave.burst_self]
    case answered => rw [answeredOver, Run.events_zero, Slave.burst_self]
  | _ => simp_all

theorem Sent.accepted_succ (h : Sent s₀ inputs n d taken acked)
    (hstate : (run s₀ inputs (n + 1 + d)).r.state = .writeback) :
    acceptedOver s₀ inputs (n + 1) (d + 1) =
      Slave.burst (writebackRequest (run s₀ inputs n)) 0
        (taken + if takes (inputs (n + 1 + d)) (run s₀ inputs (n + 1 + d)) then 1 else 0) := by
  have hrequest := h.burst.request (i := inputs (n + 1 + d)) hstate
  rw [acceptedOver, Run.events_succ, hrequest, ← acceptedOver, h.accepted, h.line]
  by_cases htakes : takes (inputs (n + 1 + d)) (run s₀ inputs (n + 1 + d)) = true
  · rw [if_pos htakes, if_pos htakes]
    exact Slave.offered_burst _ (Nat.zero_le _)
  · rw [if_neg htakes, if_neg htakes]
    exact List.append_nil _

theorem Sent.answered_succ (h : Sent s₀ inputs n d taken acked)
    (hstate : (run s₀ inputs (n + 1 + d)).r.state = .writeback) :
    answeredOver s₀ inputs (n + 1) (d + 1) =
      Slave.burst (writebackRequest (run s₀ inputs n)) 0
        (acked + if ack (inputs (n + 1 + d)) (run s₀ inputs (n + 1 + d)) then 1 else 0) := by
  rw [answeredOver, Run.events_succ, ← answeredOver, h.answered]
  cases hq : answer (inputs (n + 1 + d)) (run s₀ inputs (n + 1 + d)) with
  | none =>
    simp [ack, hq]
  | some q =>
    rw [h.burst.answered hstate hq, h.line, ack, hq]
    exact Slave.offered_burst _ (Nat.zero_le _)

theorem Sent.step (h : Sent s₀ inputs n d taken acked)
    (hstate : (run s₀ inputs (n + 1 + d)).r.state = .writeback)
    (hstate' : (run s₀ inputs (n + 1 + (d + 1))).r.state = .writeback) :
    ∃ taken' acked', Sent s₀ inputs n (d + 1) taken' acked' := by
  have hends : writebackEnds (inputs (n + 1 + d)) (run s₀ inputs (n + 1 + d)) = false := by
    by_contra hends
    exact (writebackEnds_iff hstate).mp (by simpa using hends) hstate'
  obtain ⟨taken', acked', htaken, hacked, hburst⟩ := h.burst.step hstate hends
  refine ⟨taken', acked', hburst, ?_, ?_, ?_⟩
  · exact (writebackRequest_next hstate hends).trans h.line
  · rw [h.accepted_succ hstate, htaken]
  · rw [h.answered_succ hstate, hacked]

/-- Up to its last clock a write-back sends the line word by word. -/
theorem WritesBack.sent (h : WritesBack s₀ inputs n d) (hreset : Reset s₀) {e : Nat} (he : e < d) :
    ∃ taken acked, Sent s₀ inputs n e taken acked := by
  induction e with
  | zero => exact ⟨0, 0, .start hreset h.prepares⟩
  | succ e ih =>
    obtain ⟨taken, acked, hsent⟩ := ih (by omega)
    exact hsent.step (h.writing _ (by omega) (by omega)) (h.writing _ (by omega) (by omega))

/-- There is a last clock. -/
theorem WritesBack.pos (h : WritesBack s₀ inputs n d) : 0 < d := by
  by_contra hzero
  obtain rfl : d = 0 := by omega
  apply h.leaves
  show (next (inputs n) (run s₀ inputs n)).r.state = .writeback
  rw [r_next_preparewb h.prepares]

/-- The last clock takes the words out but for the one that is stalled, and answers them all. -/
theorem WritesBack.sent_last (h : WritesBack s₀ inputs n d) (hreset : Reset s₀) :
    ∃ sent, acceptedOver s₀ inputs (n + 1) d =
        Slave.burst (writebackRequest (run s₀ inputs n)) 0 sent ∧
      answeredOver s₀ inputs (n + 1) d =
        Slave.burst (writebackRequest (run s₀ inputs n)) 0 sent ∧
      (sent = 16 ↔ (run s₀ inputs (n + d)).r.fillRDone = true ∨
        (inputs (n + d)).busStall = false) := by
  obtain ⟨e, rfl⟩ : ∃ e, d = e + 1 := ⟨d - 1, by have := h.pos; omega⟩
  obtain ⟨taken, acked, hsent⟩ := h.sent hreset (Nat.lt_succ_self e)
  have hlast : n + (e + 1) = n + 1 + e := by omega
  have hstate := h.writing (n + 1 + e) (by omega) (by omega)
  have hends : writebackEnds (inputs (n + 1 + e)) (run s₀ inputs (n + 1 + e)) = true := by
    rw [writebackEnds_iff hstate]
    have hleaves := h.leaves
    rw [hlast] at hleaves
    exact hleaves
  have hack : ack (inputs (n + 1 + e)) (run s₀ inputs (n + 1 + e)) = true := by
    have : reqLast (inputs (n + 1 + e)) (run s₀ inputs (n + 1 + e)) = true := by
      simp only [writebackEnds, Bool.and_eq_true] at hends
      exact hends.1
    simp only [reqLast, Bool.and_eq_true] at this
    exact this.1
  obtain ⟨hall, hwhole⟩ := hsent.burst.last hstate hends
  refine ⟨_, hsent.accepted_succ hstate, ?_, ?_⟩
  · rw [hsent.answered_succ hstate, hack, if_pos rfl, hall]
  · rw [hlast]
    exact hwhole

/-- A write-back sends the whole line if and only if the slave does not stall the last word in the
clock in which it answers the word before it. -/
theorem sentWhole_iff (hreset : Reset s₀) (h : WritesBack s₀ inputs n d) :
    SentWhole s₀ inputs n d ↔
      (run s₀ inputs (n + d)).r.fillRDone = true ∨ (inputs (n + d)).busStall = false := by
  obtain ⟨sent, haccepted, hanswered, hwhole⟩ := h.sent_last hreset
  have hline : wholeLine s₀ inputs n = Slave.burst (writebackRequest (run s₀ inputs n)) 0 16 := by
    rw [wholeLine, Slave.burst, List.range_eq_range']
  rw [← hwhole]
  constructor
  · intro hsent
    have hlen := hsent.accepted.length_eq
    rw [haccepted, hline, Slave.length_burst, Slave.length_burst] at hlen
    omega
  · rintro rfl
    refine ⟨?_, ?_⟩
    · rw [haccepted, hline]
    · rw [hanswered, hline]

instance (s₀ : Dcache t l) (inputs : Nat → DcacheInput t l) (n d : Nat) :
    Decidable (WritesBack s₀ inputs n d) :=
  decidable_of_iff
    ((run s₀ inputs n).r.state = .preparewb ∧
      (∀ k < n + d + 1, n < k → (run s₀ inputs k).r.state = .writeback) ∧
      (run s₀ inputs (n + d + 1)).r.state ≠ .writeback)
    ⟨fun ⟨h₁, h₂, h₃⟩ => ⟨h₁, fun k hk hle => h₂ k (by omega) hk, h₃⟩,
      fun h => ⟨h.prepares, fun k hlt hk => h.writing k hk (by omega), h.leaves⟩⟩

theorem sentWhole_evicted :
    WritesBack (reset fun _ => 5) evicted 27 17 ∧ SentWhole (reset fun _ => 5) evicted 27 17 := by
  have hwrites : WritesBack (reset fun _ => 5) evicted 27 17 := by decide +kernel
  refine ⟨hwrites, (sentWhole_iff (reset_reset _) hwrites).mpr ?_⟩
  exact .inl (by decide +kernel)

/-- The same run, but the slave stalls the sixteenth word while it answers the fifteenth. -/
def stalledLast (k : Nat) : DcacheInput 1 1 := { evicted k with busStall := k = 43 }

/-- The cache goes on with the fill, and the sixteenth word has not been written. -/
theorem lastWord_lost :
    WritesBack (reset fun _ => 5) stalledLast 27 16 ∧
      (acceptedOver (reset fun _ => 5) stalledLast 28 16).length = 15 ∧
      ¬ SentWhole (reset fun _ => 5) stalledLast 27 16 := by
  have hlen : (acceptedOver (reset fun _ => 5) stalledLast 28 16).length = 15 := by
    decide +kernel
  refine ⟨by decide +kernel, hlen, fun hsent => ?_⟩
  have hperm := hsent.accepted.length_eq
  rw [hlen, wholeLine, List.length_map, List.length_range] at hperm
  omega

end Sent

end Dcache

end Xtc
