import Xtc.App.Delay

/-!
# SdInit — when `SD_disk_initialize` accepts a card

What a card has to do to be accepted is written down over the commands it answers and the times at
which they are sent, and compared with what the code accepts.
-/

namespace Xtc

namespace Disk

open Bits (Byte)

section Spec

variable {κ : Type} (clock : Clock) (card : Card κ)

def Answers (cmd : Byte) (arg : BitVec 32) (r : Byte) (s s' : Machine κ) : Prop :=
  (sendCmd clock card cmd arg).Returns s r s'

def AnswersInTime (limit : Nat) (cmd : Byte) (arg : BitVec 32) (r : Byte) (s s' : Machine κ) :
    Prop :=
  clock.ms s.ticks < limit ∧ Answers clock card cmd arg r s.tick s'

/-- The command is repeated until the card answers it with 0, always before the limit. -/
inductive LeavesIdle (limit : Nat) (cmd : Byte) (arg : BitVec 32) : Machine κ → Machine κ → Prop
  | answers {s s' : Machine κ} : AnswersInTime clock card limit cmd arg 0 s s' →
      LeavesIdle limit cmd arg s s'
  | again {s s1 s' : Machine κ} {r : Byte} : r ≠ 0 →
      AnswersInTime clock card limit cmd arg r s s1 → LeavesIdle limit cmd arg s1 s' →
      LeavesIdle limit cmd arg s s'

def PoweredUp (s s' : Machine κ) : Prop :=
  (do initSpi clock card; dummyClocks card 10 : Comp (Machine κ) Unit).Returns s () s'

/-- `CMD8` is answered with 1 and its argument comes back. -/
def Sd2Echoes (s s' : Machine κ) : Prop :=
  ∃ s1 ocr, Answers clock card cmd8 0x1AA 1 s s1 ∧ (receiveOcr card).Returns s1 ocr s' ∧
    Echoed ocr

def Sd2Ready (limit : Nat) (s : Machine κ) : Prop :=
  ∃ s1 s2 s3, Sd2Echoes clock card s s1 ∧
    LeavesIdle clock card limit acmd41 (1 <<< 30) s1 s2 ∧
    AnswersInTime clock card limit cmd58 0 0 s2 s3

/-- `CMD8` is answered with something else, and `ACMD41` tells which command brings the card up. -/
def Sd1Found (s : Machine κ) (cmd : Byte) (s' : Machine κ) : Prop :=
  ∃ r s1 r', Answers clock card cmd8 0x1AA r s s1 ∧ r ≠ 1 ∧
    Answers clock card acmd41 0 r' s1 s' ∧ cmd = if r' ≤ 1 then acmd41 else cmd1

def Sd1Ready (limit : Nat) (s : Machine κ) : Prop :=
  ∃ cmd s1 s2 s3, Sd1Found clock card s cmd s1 ∧ LeavesIdle clock card limit cmd 0 s1 s2 ∧
    AnswersInTime clock card limit cmd16 512 0 s2 s3

def Started (s s' : Machine κ) : Prop :=
  ∃ s0, PoweredUp clock card s s0 ∧ Answers clock card cmd0 0 1 s0 s'

def CardReady (s : Machine κ) : Prop :=
  ∃ s1, Started clock card s s1 ∧
    (Sd2Ready clock card (clock.ms s1.ticks + 1000) s1.tick ∨
      Sd1Ready clock card (clock.ms s1.ticks + 1000) s1.tick)

def Initialises (s : Machine κ) : Prop :=
  ∃ r s', (sdDiskInitialize clock card).Returns s r s' ∧ s'.stat &&& staNoinit = 0 ∧
    s'.cardType ≠ 0

end Spec

/-! ## What the code accepts -/

section Code

variable {κ : Type} {clock : Clock} {card : Card κ} {s s' : Machine κ} {timeout : BitVec 32}

theorem returns_deselect : (deselect card).Returns s () s' ↔
    s' = { s with card := card.select true s.card }.exchange card 0xFF := by
  simp only [deselect, spiSelect, xchgSpi, Comp.returns_act_bind, Comp.returns_pure, true_and,
    eq_comm]

variable (card) in
theorem receiveOcr_returns (s : Machine κ) : ∃ ocr s', (receiveOcr card).Returns s ocr s' := by
  simp only [receiveOcr, xchgSpi, Comp.returns_act_bind, Comp.returns_pure]
  exact ⟨_, _, rfl, rfl⟩

theorem initSd2_accepts : (∃ ty s', (initSd2 clock card timeout).Returns s ty s' ∧ ty ≠ 0) ↔
    ∃ ocr s1 s2 s3, (receiveOcr card).Returns s ocr s1 ∧ Echoed ocr ∧
      (waitIdle clock card acmd41 (1 <<< 30) timeout).Returns s1 () s2 ∧
      clock.reading s2.ticks < timeout ∧ Answers clock card cmd58 0 0 s2.tick s3 := by
  simp only [initSd2, Comp.returns_bind (c := receiveOcr card)]
  constructor
  · rintro ⟨ty, s', ⟨ocr, s1, hocr, h⟩, hty⟩
    split_ifs at h with hecho
    · obtain ⟨_, s2, hwait, h⟩ := Comp.returns_bind.mp h
      rw [millis, Comp.returns_act_bind] at h
      split_ifs at h with hclock
      · obtain ⟨r, s3, hr, h⟩ := Comp.returns_bind.mp h
        split_ifs at h with hzero
        · rw [hzero] at hr
          exact ⟨ocr, s1, s2, s3, hocr, hecho, hwait, hclock, hr⟩
        · exact absurd (Comp.returns_pure.mp h).1.symm hty
      · exact absurd (Comp.returns_pure.mp h).1.symm hty
    · exact absurd (Comp.returns_pure.mp h).1.symm hty
  · rintro ⟨ocr, s1, s2, s3, hocr, hecho, hwait, hclock, hr⟩
    obtain ⟨ocr', s4, hocr'⟩ := receiveOcr_returns card s3
    refine ⟨if ocr'[0] &&& 0x40 ≠ 0 then ctSd2 ||| ctBlock else ctSd2, s4, ⟨ocr, s1, hocr, ?_⟩, ?_⟩
    · rw [if_pos hecho]
      refine Comp.returns_bind.mpr ⟨(), s2, hwait, ?_⟩
      rw [millis, Comp.returns_act_bind, if_pos hclock]
      refine Comp.returns_bind.mpr ⟨0, s3, hr, ?_⟩
      rw [if_pos rfl]
      exact Comp.returns_bind.mpr ⟨ocr', s4, hocr', Comp.returns_pure.mpr ⟨rfl, rfl⟩⟩
    · split_ifs <;> decide

theorem initSd1_accepts : (∃ ty s', (initSd1 clock card timeout).Returns s ty s' ∧ ty ≠ 0) ↔
    ∃ r s1 s2 s3, Answers clock card acmd41 0 r s s1 ∧
      (waitIdle clock card (if r ≤ 1 then acmd41 else cmd1) 0 timeout).Returns s1 () s2 ∧
      ¬ clock.reading s2.ticks < timeout ∧ Answers clock card cmd16 512 0 s2.tick s3 := by
  simp only [initSd1, Comp.returns_bind (c := sendCmd clock card acmd41 0)]
  constructor
  · rintro ⟨ty, s', ⟨r, s1, hr, h⟩, hty⟩
    obtain ⟨_, s2, hwait, h⟩ := Comp.returns_bind.mp h
    rw [millis, Comp.returns_act_bind] at h
    by_cases hclock : clock.reading s2.ticks < timeout
    · rw [if_pos hclock] at h
      exact absurd (Comp.returns_pure.mp h).1.symm hty
    · rw [if_neg hclock] at h
      obtain ⟨r', s3, hr', h⟩ := Comp.returns_bind.mp h
      obtain ⟨htype, -⟩ := Comp.returns_pure.mp h
      have hzero : r' = 0 := by
        by_contra hne
        rw [if_pos hne] at htype
        exact hty htype.symm
      rw [hzero] at hr'
      exact ⟨r, s1, s2, s3, hr, hwait, hclock, hr'⟩
  · rintro ⟨r, s1, s2, s3, hr, hwait, hclock, hr'⟩
    refine ⟨if r ≤ 1 then ctSd1 else ctMmc, s3, ⟨r, s1, hr, ?_⟩, ?_⟩
    · refine Comp.returns_bind.mpr ⟨(), s2, hwait, ?_⟩
      rw [millis, Comp.returns_act_bind, if_neg hclock]
      exact Comp.returns_bind.mpr ⟨0, s3, hr', Comp.returns_pure.mpr ⟨rfl, rfl⟩⟩
    · split_ifs <;> decide

/-- The card has come this far: `CMD8` and `ACMD41` have found it to be no SDv2 card, and the wait
for it is over, for whatever reason. -/
def Sd1Waited (clock : Clock) (card : Card κ) (timeout : BitVec 32) (s s' : Machine κ) : Prop :=
  ∃ cmd s1, Sd1Found clock card s cmd s1 ∧ (waitIdle clock card cmd 0 timeout).Returns s1 () s'

/-- The same for an SDv2 card. -/
def Sd2Waited (clock : Clock) (card : Card κ) (timeout : BitVec 32) (s s' : Machine κ) : Prop :=
  ∃ s1, Sd2Echoes clock card s s1 ∧
    (waitIdle clock card acmd41 (1 <<< 30) timeout).Returns s1 () s'

/-- The second starts at the look at the clock behind `CMD0`. -/
def timeoutAt (clock : Clock) (s : Machine κ) : BitVec 32 := clock.reading s.ticks + 1000

def Accepted (clock : Clock) (card : Card κ) (s1 : Machine κ) : Prop :=
  (∃ s2 s3, Sd2Waited clock card (timeoutAt clock s1) s1.tick s2 ∧
      clock.reading s2.ticks < timeoutAt clock s1 ∧ Answers clock card cmd58 0 0 s2.tick s3) ∨
    ∃ s2 s3, Sd1Waited clock card (timeoutAt clock s1) s1.tick s2 ∧
      ¬ clock.reading s2.ticks < timeoutAt clock s1 ∧ Answers clock card cmd16 512 0 s2.tick s3

theorem initCard_accepts : (∃ ty s', (initCard clock card).Returns s ty s' ∧ ty ≠ 0) ↔
    ∃ s1, Answers clock card cmd0 0 1 s s1 ∧ Accepted clock card s1 := by
  simp only [initCard, Comp.returns_bind (c := sendCmd clock card cmd0 0)]
  constructor
  · rintro ⟨ty, s', ⟨r, s1, hr, h⟩, hty⟩
    split_ifs at h with hone
    · rw [hone] at hr
      refine ⟨s1, hr, ?_⟩
      rw [millis, Comp.returns_act_bind] at h
      obtain ⟨r8, s2, hr8, h⟩ := Comp.returns_bind.mp h
      split_ifs at h with hsd2
      · left
        rw [hsd2] at hr8
        obtain ⟨ocr, s3, s4, s5, hocr, hecho, hwait, hrest⟩ :=
          initSd2_accepts.mp ⟨ty, s', h, hty⟩
        exact ⟨s4, s5, ⟨s3, ⟨s2, ocr, hr8, hocr, hecho⟩, hwait⟩, hrest⟩
      · right
        obtain ⟨r', s3, s4, s5, hr', hwait, hrest⟩ := initSd1_accepts.mp ⟨ty, s', h, hty⟩
        exact ⟨s4, s5, ⟨_, s3, ⟨r8, s2, r', hr8, hsd2, hr', rfl⟩, hwait⟩, hrest⟩
    · exact absurd (Comp.returns_pure.mp h).1.symm hty
  · rintro ⟨s1, hr, ⟨s4, s5, ⟨s3, ⟨s2, ocr, hr8, hocr, hecho⟩, hwait⟩, hrest⟩ |
      ⟨s4, s5, ⟨_, s3, ⟨r8, s2, r', hr8, hsd2, hr', rfl⟩, hwait⟩, hrest⟩⟩
    · obtain ⟨ty, s', h, hty⟩ :=
        initSd2_accepts.mpr ⟨ocr, s3, s4, s5, hocr, hecho, hwait, hrest⟩
      refine ⟨ty, s', ⟨1, s1, hr, ?_⟩, hty⟩
      rw [if_pos rfl, millis, Comp.returns_act_bind]
      exact Comp.returns_bind.mpr ⟨1, s2, hr8, h⟩
    · obtain ⟨ty, s', h, hty⟩ := initSd1_accepts.mpr ⟨r', s3, s4, s5, hr', hwait, hrest⟩
      refine ⟨ty, s', ⟨1, s1, hr, ?_⟩, hty⟩
      rw [if_pos rfl, millis, Comp.returns_act_bind]
      refine Comp.returns_bind.mpr ⟨r8, s2, hr8, ?_⟩
      rw [if_neg hsd2]
      exact h

theorem noinit_cleared (x : BitVec 32) :
    x &&& ~~~staNoinit &&& ~~~staProtect &&& staNoinit = 0 := by
  have hnone : ~~~staNoinit &&& ~~~staProtect &&& staNoinit = 0 := by decide
  rw [BitVec.and_assoc, BitVec.and_assoc, ← BitVec.and_assoc (~~~staNoinit), hnone]
  exact BitVec.and_zero

variable (card) in
/-- What is noted at the end tells an accepted card from the others. -/
theorem finish_returns (ty : Byte) (s : Machine κ) :
    ∃ r s', (do recordType ty; deselect card; note ty : Comp (Machine κ) Byte).Returns s r s' ∧
      s'.cardType = ty ∧ (ty ≠ 0 → s'.stat &&& staNoinit = 0) := by
  simp only [recordType, Comp.returns_act_bind]
  refine ⟨_, _, Comp.returns_bind.mpr ⟨(), _, returns_deselect.mpr rfl, Comp.returns_act.mpr rfl⟩,
    rfl, ?_⟩
  intro hty
  simp only [if_pos hty, tmFatfsWriteEnabled, Bool.not_true, Bool.false_eq_true, if_false]
  exact noinit_cleared _

theorem initialises_iff_accepts : Initialises clock card s ↔
    ∃ s0, PoweredUp clock card s s0 ∧
      ∃ ty s', (initCard clock card).Returns s0 ty s' ∧ ty ≠ 0 := by
  simp only [Initialises, PoweredUp, sdDiskInitialize, tmFatfsDetect, Bool.not_true,
    Bool.false_eq_true, if_false]
  constructor
  · rintro ⟨r, s', h, -, hty⟩
    obtain ⟨_, sa, hspi, h⟩ := Comp.returns_bind.mp h
    obtain ⟨_, sb, hdummy, h⟩ := Comp.returns_bind.mp h
    obtain ⟨ty, sc, hinit, h⟩ := Comp.returns_bind.mp h
    obtain ⟨r', s'', h', hrecord, -⟩ := finish_returns card ty sc
    refine ⟨sb, Comp.returns_bind.mpr ⟨_, sa, hspi, hdummy⟩, ty, sc, hinit, ?_⟩
    rwa [(h.unique h').2, hrecord] at hty
  · rintro ⟨sb, hup, ty, sc, hinit, hty⟩
    obtain ⟨_, sa, hspi, hdummy⟩ := Comp.returns_bind.mp hup
    obtain ⟨r, s', h, hrecord, hstat⟩ := finish_returns card ty sc
    refine ⟨r, s', ?_, hstat hty, hrecord ▸ hty⟩
    refine Comp.returns_bind.mpr ⟨_, sa, hspi, ?_⟩
    refine Comp.returns_bind.mpr ⟨_, sb, hdummy, ?_⟩
    exact Comp.returns_bind.mpr ⟨ty, sc, hinit, h⟩

end Code

/-! ## The wait -/

section Wait

variable {κ : Type} {clock : Clock} {card : Card κ} {s s' : Machine κ} {cmd : Byte}
  {arg timeout : BitVec 32}

theorem returns_waitIdleRound {x : Unit ⊕ Unit} :
    (waitIdleRound clock card cmd arg timeout).Returns s x s' ↔
      if clock.reading s.ticks < timeout then
        ∃ r, Answers clock card cmd arg r s.tick s' ∧
          x = if r ≠ 0 then .inl () else .inr ()
      else x = .inr () ∧ s' = s.tick := by
  rw [waitIdleRound, millis, Comp.returns_act_bind]
  by_cases hclock : clock.reading s.ticks < timeout
  · rw [if_pos hclock, if_pos hclock, Comp.returns_bind]
    simp only [Comp.returns_pure]
    constructor
    · rintro ⟨r, s1, hr, rfl, rfl⟩
      exact ⟨r, hr, rfl⟩
    · rintro ⟨r, hr, rfl⟩
      exact ⟨r, s', hr, rfl, rfl⟩
  · rw [if_neg hclock, if_neg hclock, Comp.returns_pure, eq_comm, eq_comm (b := s')]

/-- Below the wrap the readings are compared as the milliseconds are. -/
theorem reading_lt_iff (hclock : ∀ k, clock.ms k < 2 ^ 32) (k : Nat) :
    clock.reading k < timeout ↔ clock.ms k < timeout.toNat := by
  rw [BitVec.lt_def, Clock.toNat_reading, Nat.mod_eq_of_lt (hclock k)]

/-- A card that leaves the idle state ends the wait, -/
theorem waitIdle_of_leavesIdle (hclock : ∀ k, clock.ms k < 2 ^ 32)
    (h : LeavesIdle clock card timeout.toNat cmd arg s s') :
    (waitIdle clock card cmd arg timeout).Returns s () s' := by
  induction h with
  | answers h =>
    refine Comp.returns_loop.mpr (Or.inr ?_)
    rw [returns_waitIdleRound, if_pos ((reading_lt_iff hclock _).mpr h.1)]
    exact ⟨0, h.2, rfl⟩
  | again hr h _ ih =>
    refine Comp.returns_loop.mpr (Or.inl ⟨(), _, ?_, ih⟩)
    rw [returns_waitIdleRound, if_pos ((reading_lt_iff hclock _).mpr h.1)]
    exact ⟨_, h.2, (if_pos hr).symm⟩

/-- and where the wait ends before the timeout, the card has left the idle state. -/
theorem leavesIdle_of_waitIdle (hclock : ∀ k, clock.ms k < 2 ^ 32)
    (h : (waitIdle clock card cmd arg timeout).Returns s () s')
    (hbefore : clock.reading s'.ticks < timeout) :
    LeavesIdle clock card timeout.toNat cmd arg s s' := by
  refine Comp.Returns.of_invariant
    (Q := fun _ s' => clock.reading s'.ticks < timeout →
      LeavesIdle clock card timeout.toNat cmd arg s s')
    (fun _ s1 => ∀ s', LeavesIdle clock card timeout.toNat cmd arg s1 s' →
      LeavesIdle clock card timeout.toNat cmd arg s s') ?_ ?_ (fun _ h => h) h hbefore
  · intro _ s1 _ s2 hP hround
    rw [returns_waitIdleRound] at hround
    split_ifs at hround with hlt
    · obtain ⟨r, hr, hx⟩ := hround
      have hne : r ≠ 0 := by
        intro hzero
        rw [hzero] at hx
        contradiction
      exact fun s' h => hP s' (.again hne ⟨(reading_lt_iff hclock _).mp hlt, hr⟩ h)
    · exact absurd hround.1 (by simp)
  · intro _ s1 _ s2 hP hround hlast
    rw [returns_waitIdleRound] at hround
    split_ifs at hround with hlt
    · obtain ⟨r, hr, hx⟩ := hround
      have hzero : r = 0 := by
        by_contra hne
        rw [if_pos hne] at hx
        contradiction
      rw [hzero] at hr
      exact hP s2 (.answers ⟨(reading_lt_iff hclock _).mp hlt, hr⟩)
    · -- the clock does not go back
      obtain ⟨-, rfl⟩ := hround
      rw [reading_lt_iff hclock] at hlt hlast
      have hmono := clock.advances (Nat.le_succ s1.ticks)
      exact absurd (lt_of_le_of_lt hmono hlast) hlt

theorem leavesIdle_answers_iff (hclock : ∀ k, clock.ms k < 2 ^ 32) {cmd' r : Byte}
    {arg' : BitVec 32} {s'' : Machine κ} :
    LeavesIdle clock card timeout.toNat cmd arg s s' ∧
        AnswersInTime clock card timeout.toNat cmd' arg' r s' s'' ↔
      (waitIdle clock card cmd arg timeout).Returns s () s' ∧
        clock.reading s'.ticks < timeout ∧ Answers clock card cmd' arg' r s'.tick s'' := by
  constructor
  · rintro ⟨hidle, hlt, hr⟩
    exact ⟨waitIdle_of_leavesIdle hclock hidle, (reading_lt_iff hclock _).mpr hlt, hr⟩
  · rintro ⟨hwait, hlt, hr⟩
    exact ⟨leavesIdle_of_waitIdle hclock hwait hlt, (reading_lt_iff hclock _).mp hlt, hr⟩

end Wait

/-! ## The clock does not go back -/

section Ticks

variable {κ : Type} (clock : Clock) (card : Card κ)

theorem advances_millis : (millis clock : Comp (Machine κ) _).Advances Machine.ticks :=
  Comp.advances_act fun _ => Nat.le_succ _

theorem advances_xchgSpi (dat : Byte) : (xchgSpi card dat).Advances Machine.ticks :=
  Comp.advances_act fun _ => le_rfl

theorem advances_spiSelect (high : Bool) : (spiSelect card high).Advances Machine.ticks :=
  Comp.advances_act fun _ => le_rfl

theorem advances_waitReady (wt : BitVec 32) : (waitReady clock card wt).Advances Machine.ticks := by
  refine (advances_millis clock).bind fun now => ?_
  refine Comp.Advances.bind ?_ fun _ => Comp.advances_pure _
  refine Comp.Advances.loop (fun _ => ?_) ()
  refine (advances_xchgSpi card 0xFF).bind fun d => ?_
  split
  · exact (advances_millis clock).bind fun _ => Comp.advances_pure _
  · exact Comp.advances_pure _

theorem advances_deselect : (deselect card).Advances Machine.ticks :=
  (advances_spiSelect card true).bind fun _ =>
    (advances_xchgSpi card 0xFF).bind fun _ => Comp.advances_pure _

theorem advances_select : (select clock card).Advances Machine.ticks := by
  refine (advances_spiSelect card false).bind fun _ => ?_
  refine (advances_xchgSpi card 0xFF).bind fun _ => ?_
  refine (advances_waitReady clock card 500).bind fun ready => ?_
  split
  · exact Comp.advances_pure _
  · exact (advances_deselect card).bind fun _ => Comp.advances_pure _

theorem advances_receive (n : Nat) : (receive card n).Advances Machine.ticks := by
  induction n with
  | zero => exact advances_xchgSpi card 0xFF
  | succ n ih =>
    refine (advances_xchgSpi card 0xFF).bind fun res => ?_
    split
    · exact ih
    · exact Comp.advances_pure _

theorem advances_packet (cmd : Byte) (arg : BitVec 32) :
    (packet card cmd arg).Advances Machine.ticks := by
  refine (advances_xchgSpi card _).bind fun _ => (advances_xchgSpi card _).bind fun _ => ?_
  refine (advances_xchgSpi card _).bind fun _ => (advances_xchgSpi card _).bind fun _ => ?_
  refine (advances_xchgSpi card _).bind fun _ => (advances_xchgSpi card _).bind fun _ => ?_
  split
  · exact (advances_xchgSpi card _).bind fun _ => advances_receive card 9
  · exact advances_receive card 9

theorem advances_sendPlain (cmd : Byte) (arg : BitVec 32) :
    (sendPlain clock card cmd arg).Advances Machine.ticks := by
  have hselect : (selectFor clock card cmd).Advances Machine.ticks := by
    unfold selectFor
    split
    · exact (advances_deselect card).bind fun _ => advances_select clock card
    · exact Comp.advances_pure _
  refine hselect.bind fun ready => ?_
  split
  · exact advances_packet card cmd arg
  · exact Comp.advances_pure _

theorem advances_sendCmd (cmd : Byte) (arg : BitVec 32) :
    (sendCmd clock card cmd arg).Advances Machine.ticks := by
  unfold sendCmd
  split
  · refine (advances_sendPlain clock card cmd55 0).bind fun res => ?_
    split
    · exact Comp.advances_pure _
    · exact advances_sendPlain clock card _ arg
  · exact advances_sendPlain clock card cmd arg

theorem advances_receiveOcr : (receiveOcr card).Advances Machine.ticks :=
  (advances_xchgSpi card 0xFF).bind fun _ => (advances_xchgSpi card 0xFF).bind fun _ =>
    (advances_xchgSpi card 0xFF).bind fun _ => (advances_xchgSpi card 0xFF).bind fun _ =>
      Comp.advances_pure _

theorem advances_waitIdle (cmd : Byte) (arg timeout : BitVec 32) :
    (waitIdle clock card cmd arg timeout).Advances Machine.ticks := by
  refine Comp.Advances.loop (fun _ => ?_) ()
  refine (advances_millis clock).bind fun now => ?_
  split
  · exact (advances_sendCmd clock card cmd arg).bind fun _ => Comp.advances_pure _
  · exact Comp.advances_pure _

variable {clock card} {s s' : Machine κ} {timeout : BitVec 32}

theorem Sd2Waited.ticks_le (h : Sd2Waited clock card timeout s s') : s.ticks ≤ s'.ticks := by
  obtain ⟨s2, ⟨s1, ocr, hr, hocr, -⟩, hwait⟩ := h
  calc s.ticks ≤ s1.ticks := advances_sendCmd clock card _ _ _ _ _ hr
    _ ≤ s2.ticks := advances_receiveOcr card _ _ _ hocr
    _ ≤ s'.ticks := advances_waitIdle clock card _ _ _ _ _ _ hwait

theorem Sd1Waited.ticks_le (h : Sd1Waited clock card timeout s s') : s.ticks ≤ s'.ticks := by
  obtain ⟨cmd, s2, ⟨r, s1, r', hr, -, hr', -⟩, hwait⟩ := h
  calc s.ticks ≤ s1.ticks := advances_sendCmd clock card _ _ _ _ _ hr
    _ ≤ s2.ticks := advances_sendCmd clock card _ _ _ _ _ hr'
    _ ≤ s'.ticks := advances_waitIdle clock card _ _ _ _ _ _ hwait

end Ticks

/-! ## Code and card -/

section Agreement

variable {κ : Type} {clock : Clock} {card : Card κ} {s s' s'' s1 : Machine κ} {timeout : BitVec 32}

theorem Sd1Waited.unique (h : Sd1Waited clock card timeout s s')
    (h' : Sd1Waited clock card timeout s s'') : s' = s'' := by
  obtain ⟨_, s2, ⟨r, s1, r', hr, -, hr', rfl⟩, hwait⟩ := h
  obtain ⟨_, t2, ⟨q, t1, q', hq, -, hq', rfl⟩, hwait'⟩ := h'
  obtain ⟨rfl, rfl⟩ := hr.unique hq
  obtain ⟨rfl, rfl⟩ := hr'.unique hq'
  exact (hwait.unique hwait').2

theorem Sd1Waited.not_sd2Waited (h : Sd1Waited clock card timeout s s') :
    ¬ Sd2Waited clock card timeout s s'' := by
  rintro ⟨s2, ⟨s1, ocr, hone, -⟩, -⟩
  obtain ⟨_, t2, ⟨r, t1, r', hr, hne, -⟩, -⟩ := h
  exact hne (hr.unique hone).1

theorem Started.unique (h : Started clock card s s') (h' : Started clock card s s'') :
    s' = s'' := by
  obtain ⟨s0, hup, hr⟩ := h
  obtain ⟨t0, hup', hr'⟩ := h'
  obtain ⟨-, rfl⟩ := Comp.Returns.unique hup hup'
  exact (Comp.Returns.unique hr hr').2

theorem initialises_iff_accepted : Initialises clock card s ↔
    ∃ s1, Started clock card s s1 ∧ Accepted clock card s1 := by
  simp only [initialises_iff_accepts, initCard_accepts, Started]
  constructor
  · rintro ⟨s0, hup, s1, hr, h⟩
    exact ⟨s1, ⟨s0, hup, hr⟩, h⟩
  · rintro ⟨s1, ⟨s0, hup, hr⟩, h⟩
    exact ⟨s0, hup, s1, hr, h⟩

theorem sd2Ready_iff (hclock : ∀ k, clock.ms k < 2 ^ 32) :
    Sd2Ready clock card timeout.toNat s ↔
      ∃ s2 s3, Sd2Waited clock card timeout s s2 ∧ clock.reading s2.ticks < timeout ∧
        Answers clock card cmd58 0 0 s2.tick s3 := by
  simp only [Sd2Ready, Sd2Waited, leavesIdle_answers_iff hclock]
  constructor
  · rintro ⟨s1, s2, s3, hecho, hwait, h⟩
    exact ⟨s2, s3, ⟨s1, hecho, hwait⟩, h⟩
  · rintro ⟨s2, s3, ⟨s1, hecho, hwait⟩, h⟩
    exact ⟨s1, s2, s3, hecho, hwait, h⟩

theorem sd1Ready_iff (hclock : ∀ k, clock.ms k < 2 ^ 32) :
    Sd1Ready clock card timeout.toNat s ↔
      ∃ s2 s3, Sd1Waited clock card timeout s s2 ∧ clock.reading s2.ticks < timeout ∧
        Answers clock card cmd16 512 0 s2.tick s3 := by
  simp only [Sd1Ready, Sd1Waited, leavesIdle_answers_iff hclock]
  constructor
  · rintro ⟨cmd, s1, s2, s3, hfound, hwait, h⟩
    exact ⟨s2, s3, ⟨cmd, s1, hfound, hwait⟩, h⟩
  · rintro ⟨s2, s3, ⟨cmd, s1, hfound, hwait⟩, h⟩
    exact ⟨cmd, s1, s2, s3, hfound, hwait, h⟩

/-- An SDv1 or MMC card that answers the `CMD16` behind the wait with 0, however the wait ended. -/
def Sd1Passes (clock : Clock) (card : Card κ) (timeout : BitVec 32) (s : Machine κ) : Prop :=
  ∃ s2 s3, Sd1Waited clock card timeout s s2 ∧ Answers clock card cmd16 512 0 s2.tick s3

/-- Where code and card agree from the start of the second on.  Unless the limit itself wraps
around, there must be no SDv1 or MMC card that answers `CMD16`: in time it would be refused, and
too late it would be accepted. -/
def Agrees (clock : Clock) (card : Card κ) (s1 : Machine κ) : Prop :=
  (clock.ms s1.ticks + 1000 < 2 ^ 32 → ¬ Sd1Passes clock card (timeoutAt clock s1) s1.tick) ∧
    (2 ^ 32 ≤ clock.ms s1.ticks + 1000 →
      (Sd1Passes clock card (timeoutAt clock s1) s1.tick ↔
        Sd2Ready clock card (clock.ms s1.ticks + 1000) s1.tick ∨
          Sd1Ready clock card (clock.ms s1.ticks + 1000) s1.tick))

/-- With a limit that does not wrap around. -/
theorem accepted_iff_of_lt (hclock : ∀ k, clock.ms k < 2 ^ 32)
    (hlimit : clock.ms s1.ticks + 1000 < 2 ^ 32) :
    (Accepted clock card s1 ↔ Sd2Ready clock card (clock.ms s1.ticks + 1000) s1.tick ∨
        Sd1Ready clock card (clock.ms s1.ticks + 1000) s1.tick) ↔
      ¬ Sd1Passes clock card (timeoutAt clock s1) s1.tick := by
  have htimeout : clock.ms s1.ticks + 1000 = (timeoutAt clock s1).toNat := by
    rw [timeoutAt, BitVec.toNat_add, Clock.toNat_reading, Nat.mod_eq_of_lt (hclock _)]
    exact (Nat.mod_eq_of_lt hlimit).symm
  rw [htimeout, sd2Ready_iff hclock, sd1Ready_iff hclock, Accepted]
  constructor
  · rintro hagree ⟨s2, s3, hwait, hr⟩
    by_cases hlt : clock.reading s2.ticks < timeoutAt clock s1
    · -- left in time, and refused
      rcases hagree.mpr (Or.inr ⟨s2, s3, hwait, hlt, hr⟩) with
        ⟨t2, t3, h2, -⟩ | ⟨t2, t3, h1, hge, -⟩
      · exact hwait.not_sd2Waited h2
      · rw [h1.unique hwait] at hge
        exact hge hlt
    · -- too late, and accepted
      rcases hagree.mp (Or.inr ⟨s2, s3, hwait, hlt, hr⟩) with
        ⟨t2, t3, h2, -⟩ | ⟨t2, t3, h1, hin, -⟩
      · exact hwait.not_sd2Waited h2
      · rw [h1.unique hwait] at hin
        exact hlt hin
  · intro hnone
    apply or_congr Iff.rfl
    constructor
    · rintro ⟨s2, s3, hwait, -, hr⟩
      exact absurd ⟨s2, s3, hwait, hr⟩ hnone
    · rintro ⟨s2, s3, hwait, -, hr⟩
      exact absurd ⟨s2, s3, hwait, hr⟩ hnone

/-- With a limit that does, no look at the clock is before it. -/
theorem accepted_iff_of_ge (hclock : ∀ k, clock.ms k < 2 ^ 32)
    (hlimit : 2 ^ 32 ≤ clock.ms s1.ticks + 1000) :
    Accepted clock card s1 ↔ Sd1Passes clock card (timeoutAt clock s1) s1.tick := by
  have hpast : ∀ s2 : Machine κ, s1.tick.ticks ≤ s2.ticks →
      ¬ clock.reading s2.ticks < timeoutAt clock s1 := by
    intro s2 hle
    have hmono := clock.advances ((Nat.le_succ s1.ticks).trans hle)
    have hlt := hclock s1.ticks
    have hlt' := hclock s2.ticks
    rw [timeoutAt, BitVec.lt_def, BitVec.toNat_add, Clock.toNat_reading, Clock.toNat_reading,
      show (1000 : BitVec 32).toNat = 1000 from rfl]
    omega
  constructor
  · rintro (⟨s2, s3, hwait, hlt, -⟩ | ⟨s2, s3, hwait, -, hr⟩)
    · exact absurd hlt (hpast s2 hwait.ticks_le)
    · exact ⟨s2, s3, hwait, hr⟩
  · rintro ⟨s2, s3, hwait, hr⟩
    exact Or.inr ⟨s2, s3, hwait, hpast s2 hwait.ticks_le, hr⟩

theorem accepted_iff_agrees (hclock : ∀ k, clock.ms k < 2 ^ 32) :
    (Accepted clock card s1 ↔ Sd2Ready clock card (clock.ms s1.ticks + 1000) s1.tick ∨
        Sd1Ready clock card (clock.ms s1.ticks + 1000) s1.tick) ↔ Agrees clock card s1 := by
  rcases Nat.lt_or_ge (clock.ms s1.ticks + 1000) (2 ^ 32) with hlimit | hlimit
  · rw [accepted_iff_of_lt hclock hlimit]
    constructor
    · intro h
      exact ⟨fun _ => h, fun hge => absurd hge (Nat.not_le.mpr hlimit)⟩
    · intro h
      exact h.1 hlimit
  · rw [accepted_iff_of_ge hclock hlimit]
    constructor
    · intro h
      exact ⟨fun hlt => absurd hlt (Nat.not_lt.mpr hlimit), fun _ => h⟩
    · intro h
      exact h.2 hlimit

end Agreement

/-- The code accepts exactly the cards that do their part if and only if, wherever `CMD0` is
answered with 1, it agrees with the card from there on. -/
theorem initialises_iff_cardReady_iff {κ : Type} (clock : Clock) (card : Card κ) (s : Machine κ)
    (hclock : ∀ k, clock.ms k < 2 ^ 32) :
    (Initialises clock card s ↔ CardReady clock card s) ↔
      ∀ s1, Started clock card s s1 → Agrees clock card s1 := by
  rw [initialises_iff_accepted, CardReady]
  by_cases hstart : ∃ s1, Started clock card s s1
  · obtain ⟨s1, hs1⟩ := hstart
    have hone : ∀ P : Machine κ → Prop, (∃ s1, Started clock card s s1 ∧ P s1) ↔ P s1 := by
      intro P
      constructor
      · rintro ⟨t, ht, hP⟩
        obtain rfl := hs1.unique ht
        exact hP
      · intro hP
        exact ⟨s1, hs1, hP⟩
    have hall : (∀ t, Started clock card s t → Agrees clock card t) ↔ Agrees clock card s1 := by
      constructor
      · intro h
        exact h s1 hs1
      · intro h t ht
        obtain rfl := hs1.unique ht
        exact h
    rw [hone, hone, hall]
    exact accepted_iff_agrees hclock
  · rw [not_exists] at hstart
    constructor
    · intro _ s1 hs1
      exact absurd hs1 (hstart s1)
    · intro _
      constructor
      · rintro ⟨s1, hs1, -⟩
        exact absurd hs1 (hstart s1)
      · rintro ⟨s1, hs1, -⟩
        exact absurd hs1 (hstart s1)

/-! ## Two cards -/

/-- Ten milliseconds from one look to the next, for a long time. -/
def evenClock : Clock where
  ms k := min (10 * k) 1000000
  advances := by
    intro i j hij
    simp only
    omega

theorem evenClock_lt (k : Nat) : evenClock.ms k < 2 ^ 32 := by
  simp only [evenClock]
  omega

/-- A card that sends a list of bytes whatever it is sent, and `0xFF` behind it. -/
def scripted : Card (List Byte) where
  select _ c := c
  transfer _ c := (c.headD 0xFF, c.tail)

/-- Nothing for the first clocks, and then one response to each command. -/
def responses (rs : List (List Byte)) : List Byte :=
  List.replicate 10 0xFF ++ rs.flatMap (List.replicate 9 0xFF ++ ·)

/-- An SDv2 card: its echo stands behind the response to `CMD8`. -/
def sd2Card : List Byte :=
  responses [[1], [1, 0, 0, 0x01, 0xAA], [1], [0], [0, 0x40, 0xFF, 0x80, 0]]

/-- An SDv1 card: `CMD8` is an illegal command, and it leaves the idle state at once. -/
def sd1Card : List Byte := responses [[1], [5], [1], [0], [0], [0], [0]]

/-- After `n` bytes of the script and `k` looks at the clock. -/
def scriptedAt (script : List Byte) (n k : Nat) : Machine (List Byte) :=
  ⟨script.drop n, k, (script.take n).reverse, staNoinit, 0⟩

/-- The SDv2 card. -/
theorem initialises_iff_cardReady_iff_sd2 :
    CardReady evenClock scripted (scriptedAt sd2Card 0 0) := by
  have hagree : ∀ s1, Started evenClock scripted (scriptedAt sd2Card 0 0) s1 →
      Agrees evenClock scripted s1 := by
    have hup : Started evenClock scripted (scriptedAt sd2Card 0 0) (scriptedAt sd2Card 20 3) :=
      ⟨scriptedAt sd2Card 10 2, ⟨9, by decide +kernel⟩, 9, by decide +kernel⟩
    intro s1 hs1
    obtain rfl := hup.unique hs1
    have hecho : Answers evenClock scripted cmd8 0x1AA 1 (scriptedAt sd2Card 20 4)
        (scriptedAt sd2Card 30 5) := ⟨9, by decide +kernel⟩
    refine ⟨?_, fun hge => absurd hge (by decide)⟩
    rintro - ⟨s2, s3, ⟨cmd, t2, ⟨r, t1, r', hr, hne, -⟩, -⟩, -⟩
    exact hne (hr.unique hecho).1
  have haccepted : Initialises evenClock scripted (scriptedAt sd2Card 0 0) := by
    obtain ⟨r, s', hret, hs'⟩ := Comp.returns_of_run (c := sdDiskInitialize evenClock scripted)
      (s := scriptedAt sd2Card 0 0) 9
      (fun _ s' => s'.stat &&& staNoinit == 0 && s'.cardType != 0) (by decide +kernel)
    simp only [Bool.and_eq_true, beq_iff_eq, bne_iff_ne] at hs'
    exact ⟨r, s', hret, hs'⟩
  exact ((initialises_iff_cardReady_iff evenClock scripted _ evenClock_lt).mpr hagree).mp haccepted

/-- The SDv1 card does its part, and is refused. -/
theorem sd1_card_refused : (∀ k, evenClock.ms k < 2 ^ 32) ∧
    CardReady evenClock scripted (scriptedAt sd1Card 0 0) ∧
    ¬ Initialises evenClock scripted (scriptedAt sd1Card 0 0) := by
  refine ⟨evenClock_lt, ?_, ?_⟩
  · have hup : PoweredUp evenClock scripted (scriptedAt sd1Card 0 0) (scriptedAt sd1Card 10 2) :=
      ⟨9, by decide +kernel⟩
    have h0 : Answers evenClock scripted cmd0 0 1 (scriptedAt sd1Card 10 2)
        (scriptedAt sd1Card 20 3) := ⟨9, by decide +kernel⟩
    have h8 : Answers evenClock scripted cmd8 0x1AA 5 (scriptedAt sd1Card 20 4)
        (scriptedAt sd1Card 30 5) := ⟨9, by decide +kernel⟩
    have h41 : Answers evenClock scripted acmd41 0 0 (scriptedAt sd1Card 30 5)
        (scriptedAt sd1Card 50 7) := ⟨9, by decide +kernel⟩
    have hidle : Answers evenClock scripted acmd41 0 0 (scriptedAt sd1Card 50 8)
        (scriptedAt sd1Card 70 10) := ⟨9, by decide +kernel⟩
    have h16 : Answers evenClock scripted cmd16 512 0 (scriptedAt sd1Card 70 11)
        (scriptedAt sd1Card 80 12) := ⟨9, by decide +kernel⟩
    refine ⟨scriptedAt sd1Card 20 3, ⟨_, hup, h0⟩, Or.inr ?_⟩
    exact ⟨acmd41, scriptedAt sd1Card 50 7, scriptedAt sd1Card 70 10, scriptedAt sd1Card 80 12,
      ⟨5, _, 0, h8, by decide, h41, rfl⟩, .answers ⟨by decide, hidle⟩, by decide, h16⟩
  · rintro ⟨r, s', hret, -, hty⟩
    obtain ⟨r', s'', hret', hs''⟩ := Comp.returns_of_run (c := sdDiskInitialize evenClock scripted)
      (s := scriptedAt sd1Card 0 0) 9 (fun _ s' => s'.cardType == 0) (by decide +kernel)
    rw [(hret.unique hret').2] at hty
    exact hty (beq_iff_eq.mp hs'')

end Disk

end Xtc
