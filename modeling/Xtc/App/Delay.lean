import Xtc.App.Disk

/-!
# Delay — `usleep` and `wait_ready` around the wrap of the clock

`millis` counts milliseconds in 32 bits.  Both functions compare it with the time at which they
are to stop, and neither takes into account that one of the two may have wrapped around.
-/

namespace Xtc

namespace Disk

open Bits (Byte)

/-- A delay called at the reading `start` is never too short, whatever the clock does then. -/
def UsleepWaits (start usec : BitVec 32) : Prop :=
  ∀ (κ : Type) (clock : Clock) (s s' : Machine κ) (r : Int),
    clock.reading s.ticks = start → (usleep clock usec).Returns s r s' →
      clock.ms s.ticks + usec.toNat / 1000 ≤ clock.ms (s'.ticks - 1)

/-- `wait_ready` called at the reading `start` gives up only when the card has had its time, and
has not answered `0xFF` in it. -/
def WaitReadyWaits (start wt : BitVec 32) : Prop :=
  ∀ (κ : Type) (clock : Clock) (card : Card κ) (s s' : Machine κ),
    clock.reading s.ticks = start → (waitReady clock card wt).Returns s false s' →
      clock.ms s.ticks + wt.toNat ≤ clock.ms (s'.ticks - 1) ∧
        ∃ heard, s'.heard = heard ++ s.heard ∧ ∀ d ∈ heard, d ≠ 0xFF

section Runs

variable {κ : Type} {clock : Clock} {card : Card κ} {s s' : Machine κ}

@[simp] theorem Clock.toNat_reading (k : Nat) : (clock.reading k).toNat = clock.ms k % 2 ^ 32 := by
  simp [Clock.reading]

/-- The loop ends at a look at the clock that tells it to. -/
theorem whileClock_last {again : BitVec 32 → Bool} (h : (whileClock clock again).Returns s () s') :
    s.ticks < s'.ticks ∧ again (clock.reading (s'.ticks - 1)) = false := by
  refine Comp.Returns.of_invariant
    (Q := fun _ s' => s.ticks < s'.ticks ∧ again (clock.reading (s'.ticks - 1)) = false)
    (fun _ s1 => s.ticks ≤ s1.ticks) ?_ ?_ le_rfl h
  · intro _ s1 _ s2 hle hround
    simp only [millis, Comp.returns_act_bind, Comp.returns_pure] at hround
    obtain ⟨-, rfl⟩ := hround
    exact Nat.le_succ_of_le hle
  · intro _ s1 _ s2 hle hround
    simp only [millis, Comp.returns_act_bind, Comp.returns_pure] at hround
    obtain ⟨hagain, rfl⟩ := hround
    refine ⟨Nat.lt_succ_of_le hle, ?_⟩
    by_contra hgo
    rw [Bool.not_eq_false] at hgo
    rw [show s1.tick.ticks - 1 = s1.ticks from rfl] at hgo
    rw [if_pos hgo] at hagain
    contradiction

theorem returns_usleep {usec : BitVec 32} {r : Int} :
    (usleep clock usec).Returns s r s' ↔ r = 0 ∧
      (whileClock clock fun now =>
        if clock.reading s.ticks > clock.reading s.ticks + usec / 1000
        then now > clock.reading s.ticks + usec / 1000
        else now < clock.reading s.ticks + usec / 1000).Returns s.tick () s' := by
  simp only [usleep, millis, Comp.returns_act_bind]
  split_ifs with hwrap
  all_goals
    simp only [Comp.returns_bind, Comp.returns_pure]
    constructor
    · rintro ⟨_, _, h, rfl, rfl⟩
      exact ⟨rfl, h⟩
    · rintro ⟨rfl, h⟩
      exact ⟨(), s', h, rfl, rfl⟩

theorem toNat_stop (start usec : BitVec 32) :
    (start + usec / 1000).toNat = (start.toNat + usec.toNat / 1000) % 2 ^ 32 := by
  rw [BitVec.toNat_add, BitVec.toNat_udiv]
  rfl

theorem usleep_waits {usec : BitVec 32} {r : Int}
    (h : (clock.reading s.ticks).toNat + usec.toNat / 1000 ≤ 2 ^ 32)
    (hret : (usleep clock usec).Returns s r s') :
    clock.ms s.ticks + usec.toNat / 1000 ≤ clock.ms (s'.ticks - 1) := by
  obtain ⟨-, hloop⟩ := returns_usleep.mp hret
  obtain ⟨hlt, hlast⟩ := whileClock_last hloop
  have hle : s.ticks ≤ s'.ticks - 1 := Nat.le_sub_one_of_lt (Nat.lt_of_succ_lt hlt)
  have hmono := clock.advances hle
  have husec := usec.isLt
  by_contra hearly
  simp only [gt_iff_lt, BitVec.lt_def, toNat_stop, Clock.toNat_reading] at h hlast
  split_ifs at hlast <;> rw [decide_eq_false_iff_not] at hlast <;> omega

/-! ## Waiting for the card -/

theorem returns_waitRound {timeout : BitVec 32} {x : Unit ⊕ Byte} :
    (waitRound clock card timeout).Returns s x s' ↔
      if (card.transfer 0xFF s.card).1 ≠ 0xFF then
        x = (if clock.reading s.ticks < timeout then .inl ()
          else .inr (card.transfer 0xFF s.card).1) ∧ s' = (s.exchange card 0xFF).tick
      else x = .inr (card.transfer 0xFF s.card).1 ∧ s' = s.exchange card 0xFF := by
  simp only [waitRound, xchgSpi, Comp.returns_act_bind]
  by_cases hd : (card.transfer 0xFF s.card).1 ≠ 0xFF
  · rw [if_pos hd, if_pos hd, millis, Comp.returns_act_bind, Comp.returns_pure, eq_comm,
      eq_comm (b := s')]
    rfl
  · rw [if_neg hd, if_neg hd, Comp.returns_pure, eq_comm, eq_comm (b := s')]

theorem returns_waitReady {wt : BitVec 32} {b : Bool} :
    (waitReady clock card wt).Returns s b s' ↔ ∃ d : Byte, (d == 0xFF) = b ∧
      (Comp.loop (fun _ => waitRound clock card (clock.reading s.ticks + wt)) ()).Returns
        s.tick d s' := by
  rw [waitReady, millis, Comp.returns_act_bind, Comp.returns_bind]
  simp only [Comp.returns_pure]
  constructor
  · rintro ⟨d, s1, h, hd, rfl⟩
    exact ⟨d, hd, h⟩
  · rintro ⟨d, hd, h⟩
    exact ⟨d, s', h, hd, rfl⟩

/-- Where it gives up: the last look at the clock was not before the timeout, and nothing but other
bytes has come from the card. -/
theorem waitReady_last {wt : BitVec 32} (h : (waitReady clock card wt).Returns s false s') :
    s.ticks < s'.ticks - 1 ∧
      ¬ clock.reading (s'.ticks - 1) < clock.reading s.ticks + wt ∧
      ∃ heard, s'.heard = heard ++ s.heard ∧ ∀ d ∈ heard, d ≠ 0xFF := by
  obtain ⟨d, hd, hloop⟩ := returns_waitReady.mp h
  have hd : d ≠ 0xFF := by simpa using hd
  refine Comp.Returns.of_invariant
    (Q := fun d s' => d ≠ 0xFF → s.ticks < s'.ticks - 1 ∧
      ¬ clock.reading (s'.ticks - 1) < clock.reading s.ticks + wt ∧
      ∃ heard, s'.heard = heard ++ s.heard ∧ ∀ d ∈ heard, d ≠ 0xFF)
    (fun _ s1 => s.ticks < s1.ticks ∧ ∃ heard, s1.heard = heard ++ s.heard ∧ ∀ d ∈ heard, d ≠ 0xFF)
    ?_ ?_ ⟨Nat.lt_succ_self _, [], rfl, by simp⟩ hloop hd
  · rintro _ s1 _ s2 ⟨hlt, heard, hheard, hall⟩ hround
    rw [returns_waitRound] at hround
    split_ifs at hround with hbyte hclock
    · obtain ⟨-, rfl⟩ := hround
      refine ⟨Nat.lt_succ_of_lt hlt, _ :: heard, congrArg (List.cons _) hheard, ?_⟩
      exact List.forall_mem_cons.mpr ⟨hbyte, hall⟩
    · exact absurd hround.1 (by simp)
    · exact absurd hround.1 (by simp)
  · rintro _ s1 d s2 ⟨hlt, heard, hheard, hall⟩ hround hd
    rw [returns_waitRound] at hround
    split_ifs at hround with hbyte hclock
    · exact absurd hround.1 (by simp)
    · obtain ⟨-, rfl⟩ := hround
      refine ⟨hlt, hclock, _ :: heard, congrArg (List.cons _) hheard, ?_⟩
      exact List.forall_mem_cons.mpr ⟨hbyte, hall⟩
    · obtain ⟨heq, -⟩ := hround
      rw [Sum.inr.injEq] at heq
      exact absurd (heq.trans (not_not.mp hbyte)) hd

theorem waitReady_waits {wt : BitVec 32}
    (h : (clock.reading s.ticks).toNat + wt.toNat < 2 ^ 32 ∨ wt = 0)
    (hret : (waitReady clock card wt).Returns s false s') :
    clock.ms s.ticks + wt.toNat ≤ clock.ms (s'.ticks - 1) := by
  obtain ⟨hlt, hlast, -⟩ := waitReady_last hret
  have hmono := clock.advances hlt.le
  rcases h with h | rfl
  · simp only [BitVec.lt_def, BitVec.toNat_add, Clock.toNat_reading] at h hlast
    omega
  · simpa using hmono

end Runs

/-! ## Across the wrap -/

/-- A clock that stands at `start` when the call is made and at the wrap from then on. -/
def wrapping (start : BitVec 32) : Clock where
  ms k := if k = 0 then start.toNat else 2 ^ 32
  advances := by
    intro i j hij
    have hlt := start.isLt
    simp only
    split_ifs <;> omega

def standing (start : BitVec 32) : Clock where
  ms _ := start.toNat
  advances _ _ _ := le_rfl

def busy : Card Unit where
  select _ c := c
  transfer _ c := (0, c)

def atStart : Machine Unit := ⟨(), 0, [], staNoinit, 0⟩

theorem usleep_early {start usec : BitVec 32} (h : 2 ^ 32 < start.toNat + usec.toNat / 1000) :
    ¬ UsleepWaits start usec := by
  intro hwaits
  have hstart := start.isLt
  have husec := usec.isLt
  have hzero : (wrapping start).reading atStart.ticks = start := by
    simp [Clock.reading, wrapping, atStart]
  have hone : (wrapping start).reading atStart.tick.ticks = 0 := by
    simp [Clock.reading, wrapping, atStart, Machine.tick]
  -- the first look behind the wrap already is below the time to stop at
  have hend : (usleep (wrapping start) usec).Returns atStart 0 atStart.tick.tick := by
    rw [returns_usleep, hzero]
    refine ⟨rfl, Comp.returns_loop.mpr (Or.inr ?_)⟩
    rw [millis, Comp.returns_act_bind, Comp.returns_pure]
    have hwrap : start > start + usec / 1000 := by
      rw [gt_iff_lt, BitVec.lt_def, toNat_stop]
      omega
    have hstop : ¬ (0 : BitVec 32) > start + usec / 1000 := by simp
    simp only [hone, if_pos hwrap, hstop, decide_false, Bool.false_eq_true, if_false, and_self]
  have hearly := hwaits Unit (wrapping start) atStart _ 0 hzero hend
  simp [wrapping, atStart, Machine.tick] at hearly
  omega

theorem waitReady_early {start wt : BitVec 32} (h : 2 ^ 32 ≤ start.toNat + wt.toNat)
    (hwt : wt ≠ 0) : ¬ WaitReadyWaits start wt := by
  intro hwaits
  have hstart := start.isLt
  have hlt := wt.isLt
  have hread : ∀ k, (standing start).reading k = start := by
    intro k
    simp [Clock.reading, standing]
  have hend : (waitReady (standing start) busy wt).Returns atStart false
      (atStart.tick.exchange busy 0xFF).tick := by
    refine returns_waitReady.mpr ⟨0, rfl, Comp.returns_loop.mpr (Or.inr ?_)⟩
    rw [returns_waitRound, if_pos (by decide), hread, hread]
    have htimeout : ¬ start < start + wt := by
      rw [BitVec.lt_def, BitVec.toNat_add]
      omega
    exact ⟨(if_neg htimeout).symm, rfl⟩
  obtain ⟨hearly, -⟩ := hwaits Unit (standing start) busy atStart _ (hread _) hend
  have hpos : wt.toNat ≠ 0 := fun hz => hwt (BitVec.eq_of_toNat_eq hz)
  simp [standing] at hearly
  contradiction

/-- A delay is kept exactly when it does not reach beyond the wrap, and the card gets its time
exactly when the timeout does not wrap around. -/
theorem delays_kept_iff (start usec wt : BitVec 32) :
    (UsleepWaits start usec ↔ start.toNat + usec.toNat / 1000 ≤ 2 ^ 32) ∧
      (WaitReadyWaits start wt ↔ start.toNat + wt.toNat < 2 ^ 32 ∨ wt = 0) := by
  refine ⟨⟨?_, ?_⟩, ?_, ?_⟩
  · intro hwaits
    by_contra hlarge
    exact usleep_early (by omega) hwaits
  · rintro h κ clock s s' r rfl hret
    exact usleep_waits h hret
  · intro hwaits
    by_contra hlarge
    rw [not_or] at hlarge
    exact waitReady_early (by omega) hlarge.2 hwaits
  · rintro h κ clock card s s' rfl hret
    exact ⟨waitReady_waits h hret, (waitReady_last hret).2.2⟩

/-- One millisecond before the wrap: two milliseconds are over after one, and ten at once. -/
theorem delays_cut_short :
    ¬ UsleepWaits 0xffffffff#32 2000#32 ∧ ¬ WaitReadyWaits 0xffffffff#32 10#32 :=
  ⟨usleep_early (by decide), waitReady_early (by decide) (by decide)⟩

end Disk

end Xtc
