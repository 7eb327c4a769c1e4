import Xtc.Cache.IcacheDeliver

/-!
# IcacheFlush — a flush of the instruction cache

A flush begins at once, or when the fill that is under way has ended, and clears one line at a
clock, from the last.  No address is taken meanwhile.  What is delivered to an access after it was
fetched after it.
-/

namespace Xtc

namespace Icache

def Empty (s : Icache) : Prop := ∀ l, (s.tagRam l).valid = false

/-- The lines above the counter are cleared. -/
structure Swept (s : Icache) : Prop where
  tagMemWen : s.r.state = .flushing → s.r.tagMemWen = true
  above : s.r.state = .flushing → ∀ l, s.r.flushcnt < l → (s.tagRam l).valid = false

def Pending (s : Icache) : Prop :=
  s.r.state = .flushing ∨ s.r.state = .ending ∧ s.r.flush = true ∨
    s.r.state = .filling ∧ s.r.flush = true ∧ s.r.fault = true

/-! ## The sweep -/

section Sweep

variable {rom : Word → Word} {i : IcacheInput} {s : Icache}

theorem Reset.swept (h : Reset s) : Swept s where
  tagMemWen _ := h.tagMemWen
  above := by
    intro _ l hl
    rw [h.flushcnt] at hl
    have := l.isLt
    bv_omega

variable (rom) in
theorem sweep_next (hstate : s.r.state = .flushing) (hmore : s.r.flushcnt ≠ 0#7) :
    (next i s rom).r.state = .flushing ∧ (next i s rom).r.flushcnt = s.r.flushcnt - 1 ∧
      (next i s rom).r.tagMemWen = true := by
  have hcase : caseNext i s = flushingNext i s := by simp [caseNext, hstate]
  simp [next, regsNext, hcase, flushingNext, hmore, defaults, hstate]

theorem Swept.clears (h : Swept s) (hstate : s.r.state = .flushing) (l : LineId)
    (hl : s.r.flushcnt ≤ l) : (tagRamNext s l).valid = false := by
  have haddr : tagMemAddr s = s.r.flushcnt := by simp [tagMemAddr, hstate]
  by_cases hnow : l = s.r.flushcnt
  · simp [tagRamNext, h.tagMemWen hstate, haddr, hnow, tagMemData, hstate]
  · have hold := h.above hstate l (by bv_omega)
    simp [tagRamNext, haddr, hnow, hold]

variable (rom) in
theorem Swept.empty (h : Swept s) (hstate : s.r.state = .flushing) (hlast : s.r.flushcnt = 0#7) :
    Empty (next i s rom) := by
  intro l
  apply h.clears hstate l
  rw [hlast]
  bv_omega

variable (rom) in
/-- The counter begins at the last line. -/
theorem flush_begins (hstate : s.r.state ≠ .flushing)
    (hnext : (next i s rom).r.state = .flushing) :
    (next i s rom).r.flushcnt = 127 ∧ (next i s rom).r.tagMemWen = true := by
  change (regsNext i s).state = _ at hnext
  show (regsNext i s).flushcnt = _ ∧ (regsNext i s).tagMemWen = _
  cases hs : s.r.state with
  | flushing => exact absurd hs hstate
  | running =>
    have hcase : caseNext i s = runningNext i s := by simp [caseNext, hs]
    by_cases hflush : i.flush = true
    · simp [regsNext, hcase, runningNext, hflush, startFlush]
    · exfalso
      by_cases hmiss : misses i s = true
      · simp [regsNext, hcase, runningNext, hflush, hmiss, startFill] at hnext
      · simp [regsNext, hcase, runningNext, hflush, hmiss, defaults, hs] at hnext
  | filling =>
    exfalso
    rw [regsNext_filling hs] at hnext
    simp only [fillingNext, hs] at hnext
    split_ifs at hnext
  | ending =>
    have hcase : caseNext i s = endingNext i s := by simp [caseNext, hs]
    by_cases hflush : s.r.flush = true
    · simp [regsNext, hcase, endingNext, hflush, startFlush]
    · exfalso
      by_cases hqueued : s.r.queuedAddress = true
      · simp [regsNext, hcase, endingNext, hflush, hqueued, startFillQueued, startFill] at hnext
      · simp [regsNext, hcase, endingNext, hflush, hqueued] at hnext

variable (rom) in
theorem Swept.next (h : Swept s) : Swept (next i s rom) := by
  by_cases hstate : s.r.state = .flushing
  · by_cases hlast : s.r.flushcnt = 0#7
    · have hempty := h.empty rom (i := i) hstate hlast
      have hcase : caseNext i s = flushingNext i s := by simp [caseNext, hstate]
      have hdone : (Icache.next i s rom).r.state ≠ .flushing := by
        by_cases hq : s.r.queuedAddress = true ∧ s.r.fault = true
        · simp [Icache.next, regsNext, hcase, flushingNext, hlast, hq, startFillQueued, startFill]
        · simp [Icache.next, regsNext, hcase, flushingNext, hlast, hq]
      exact ⟨fun hs => absurd hs hdone, fun hs => absurd hs hdone⟩
    · obtain ⟨-, hcnt, hwen⟩ := sweep_next rom (i := i) hstate hlast
      refine ⟨fun _ => hwen, ?_⟩
      intro _ l hl
      apply h.clears hstate l
      rw [hcnt] at hl
      bv_omega
  · constructor
    · intro hs
      exact (flush_begins rom hstate hs).2
    · intro hs l hl
      rw [(flush_begins rom hstate hs).1] at hl
      have := l.isLt
      bv_omega

/-! ## From the request to the sweep -/

theorem Pending.accepts (h : Pending s) : accepts i s = false := by
  have hstall : stallInput i s = true := by
    rcases h with hs | ⟨hs, -⟩ | ⟨hs, -, hfault⟩
    · simp [stallInput, hs]
    · simp [stallInput, hs]
    · simp [stallInput, hs, fillStall, hfault]
  simp [Icache.accepts, hstall]

variable (rom) in
theorem filling_next (hstate : s.r.state = .filling) :
    (next i s rom).r.state = .filling ∨ (next i s rom).r.state = .ending := by
  rw [next_state rom hstate]
  unfold fillingNext
  simp only [hstate]
  split_ifs
  · exact .inr rfl
  · exact .inl rfl

variable (rom) in
theorem flush_filling (hstate : s.r.state = .filling) :
    (next i s rom).r.flush = (s.r.flush || i.flush) := by
  show (regsNext i s).flush = _
  rw [regsNext_filling hstate]
  rfl

variable (rom) in
theorem pending_filling (hstate : s.r.state = .filling)
    (hflush : i.flush = true ∨ s.r.flush = true ∧ s.r.fault = true) :
    Pending (next i s rom) := by
  have hreg : (next i s rom).r.flush = true := by
    rw [flush_filling rom hstate]
    rcases hflush with h | h <;> simp [h]
  have hfault : (next i s rom).r.fault = true := by
    rw [fault_filling rom hstate]
    rcases hflush with h | h <;> simp [h]
  rcases filling_next rom hstate with hs | hs
  · exact .inr (.inr ⟨hs, hreg, hfault⟩)
  · exact .inr (.inl ⟨hs, hreg⟩)

variable (rom) in
theorem ending_flushes (hstate : s.r.state = .ending) (hflush : s.r.flush = true) :
    (next i s rom).r.state = .flushing ∧ (next i s rom).r.flushcnt = 127 := by
  have hcase : caseNext i s = endingNext i s := by simp [caseNext, hstate]
  simp [next, regsNext, hcase, endingNext, hflush, startFlush]

variable (rom) in
theorem flushing_next (hswept : Swept s) (hstate : s.r.state = .flushing) :
    Pending (next i s rom) ∨ Empty (next i s rom) := by
  by_cases hlast : s.r.flushcnt = 0#7
  · exact .inr (hswept.empty rom hstate hlast)
  · exact .inl (.inl (sweep_next rom hstate hlast).1)

variable (rom) in
theorem Pending.next (h : Pending s) (hswept : Swept s) :
    Pending (next i s rom) ∨ Empty (next i s rom) ∧ s.r.state = .flushing := by
  rcases h with hs | ⟨hs, hflush⟩ | ⟨hs, hflush, hfault⟩
  · exact (flushing_next rom hswept hs).imp_right fun h => ⟨h, hs⟩
  · exact .inl (.inl (ending_flushes rom hs hflush).1)
  · exact .inl (pending_filling rom hs (.inr ⟨hflush, hfault⟩))

variable (rom) in
/-- The request is taken in every state but the ending one, which only knows of an earlier one. -/
theorem flush_taken (hflush : i.flush = true) (hswept : Swept s)
    (hending : s.r.state = .ending → s.r.flush = true) :
    Pending (Icache.next i s rom) ∨ Empty (Icache.next i s rom) ∧ s.r.state = .flushing := by
  cases hs : s.r.state with
  | flushing => exact (flushing_next rom hswept hs).imp_right fun h => ⟨h, rfl⟩
  | running =>
    have hcase : caseNext i s = runningNext i s := by simp [caseNext, hs]
    left
    left
    simp [Icache.next, regsNext, hcase, runningNext, hflush, startFlush]
  | filling => exact .inl (pending_filling rom hs (.inl hflush))
  | ending => exact .inl (.inl (ending_flushes rom hs (hending hs)).1)

end Sweep

/-! ## After the sweep -/

section After

def Fresh (n₀ : Nat) (t : Option Nat) : Prop := ∃ u, n₀ ≤ u ∧ t = some u

/-- Since the sweep of the flush in clock `n₀`, every line that is valid or being filled was fetched
after it, and so is what the registers of the two memories show for an access after it. -/
structure Clean (rom : Word → Word) (s₀ : Icache) (inputs : Nat → IcacheInput) (n₀ n : Nat) :
    Prop where
  swept : ∃ m, n₀ ≤ m ∧ m < n ∧ (run rom s₀ inputs m).r.state = .flushing
  entries : ∀ l, ((run rom s₀ inputs n).tagRam l).valid = true →
    ¬ InProgress (run rom s₀ inputs n) l → ∀ o, Fresh n₀ (fetched rom s₀ inputs n l o)
  burst : (run rom s₀ inputs n).r.state = .filling → ∃ first taken acked,
    Burst (run rom s₀ inputs n) first taken acked ∧ ∀ j < acked, Fresh n₀
      (fetched rom s₀ inputs n (run rom s₀ inputs n).r.lineSave (Slave.ring first j))
  line : (run rom s₀ inputs n).r.state = .ending → ∀ o, Fresh n₀
    (fetched rom s₀ inputs n (run rom s₀ inputs n).r.lineSave o)
  registers : ∀ k, n₀ < k → k < n → accepts (inputs k) (run rom s₀ inputs k) = true →
    ((run rom s₀ inputs n).r.state = .running ∨ (run rom s₀ inputs n).r.state = .flushing) →
    (run rom s₀ inputs n).ctag.valid = true → Fresh n₀ (shown rom s₀ inputs n)

variable {rom : Word → Word} {s₀ : Icache} {inputs : Nat → IcacheInput} {n₀ n : Nat}

theorem fetched_quiet (h : answer (inputs n) (run rom s₀ inputs n) = none) :
    fetched rom s₀ inputs (n + 1) = fetched rom s₀ inputs n := by
  funext l o
  simp [fetched, h]

theorem Fresh.succ {l : LineId} {o : Offset} (hn : n₀ ≤ n)
    (h : Fresh n₀ (fetched rom s₀ inputs n l o)) :
    Fresh n₀ (fetched rom s₀ inputs (n + 1) l o) := by
  unfold fetched
  cases answer (inputs n) (run rom s₀ inputs n) with
  | none => exact h
  | some q =>
    simp only []
    split_ifs
    · exact ⟨n, hn, rfl⟩
    · exact h

/-- An entry as the memory holds it, or as it is being written. -/
theorem Clean.entry (h : Clean rom s₀ inputs n₀ n) (hphase : BusPhase (run rom s₀ inputs n))
    (hstate : (run rom s₀ inputs n).r.state ≠ .filling) {l : LineId}
    (hvalid : ((run rom s₀ inputs n).tagRam l).valid = true ∨
      (tagRamNext (run rom s₀ inputs n) l).valid = true) (o : Offset) :
    Fresh n₀ (fetched rom s₀ inputs n l o) := by
  by_cases hending : (run rom s₀ inputs n).r.state = .ending
  · by_cases hl : l = (run rom s₀ inputs n).r.lineSave
    · rw [hl]
      exact h.line hending o
    · have hsame : tagRamNext (run rom s₀ inputs n) l = (run rom s₀ inputs n).tagRam l := by
        simp [tagRamNext, tagMemAddr, hending, hl]
      rw [hsame, or_self] at hvalid
      exact h.entries l hvalid (fun hp => hl hp.2.symm) o
  · -- only a flush writes here, and what it writes is not valid
    have hold : ((run rom s₀ inputs n).tagRam l).valid = true := by
      rcases hvalid with hvalid | hvalid
      · exact hvalid
      · unfold tagRamNext at hvalid
        split_ifs at hvalid with hwrite
        · cases hphase with
          | idle hs =>
            rcases hs with hs | ⟨-, hwen⟩
            · simp [tagMemData, hs] at hvalid
            · simp [hwen] at hwrite
          | filling _ _ _ hs => exact absurd hs hstate
          | ending hs => exact absurd hs hending
        · exact hvalid
    exact h.entries l hold (by simp [InProgress, hstate, hending]) o

theorem reads_quiet {i : IcacheInput} {s : Icache} (hstate : s.r.state ≠ .filling) :
    tagMemEnable i s = cacheMemEnable i s := by
  unfold tagMemEnable cacheMemEnable
  cases hs : s.r.state with
  | filling => exact absurd hs hstate
  | _ => rfl

theorem Clean.registers_quiet (h : Clean rom s₀ inputs n₀ n)
    (hphase : BusPhase (run rom s₀ inputs n)) (hok : Delivers rom s₀ inputs n)
    (hstate : (run rom s₀ inputs n).r.state ≠ .filling) (k : Nat) (hk : n₀ < k) (hkn : k < n + 1)
    (haccepts : accepts (inputs k) (run rom s₀ inputs k) = true)
    (hvalid : (run rom s₀ inputs (n + 1)).ctag.valid = true) :
    Fresh n₀ (shown rom s₀ inputs (n + 1)) := by
  have hquiet := fetched_quiet (hphase.answer_none hstate hok.flush)
  rw [run_succ, next] at hvalid
  simp only [reads_quiet hstate] at hvalid
  unfold shown
  by_cases hread : cacheMemEnable (inputs n) (run rom s₀ inputs n) = true
  · simp only [if_pos hread, hquiet, ite_self] at hvalid ⊢
    apply h.entry hphase hstate
    split_ifs at hvalid
    · exact .inr hvalid
    · exact .inl hvalid
  · simp only [if_neg hread] at hvalid ⊢
    have hruns : (run rom s₀ inputs n).r.state = .running ∨
        (run rom s₀ inputs n).r.state = .flushing := by
      cases hs : (run rom s₀ inputs n).r.state with
      | running => exact .inl rfl
      | flushing => exact .inr rfl
      | filling => exact absurd hs hstate
      | ending => simp [cacheMemEnable, hs] at hread
    -- an address that is taken is read
    have hbefore : k ≠ n := by
      intro heq
      subst heq
      simp only [accepts, Bool.and_eq_true] at haccepts
      rcases hruns with hs | hs <;> simp [cacheMemEnable, hs, haccepts] at hread
    exact h.registers k hk (by omega) haccepts hruns hvalid

/-- Outside a fill, at most a new one begins. -/
theorem begins_quiet (hphase : BusPhase (run rom s₀ inputs n)) (hok : Delivers rom s₀ inputs n)
    (hstate : (run rom s₀ inputs n).r.state ≠ .filling) :
    (run rom s₀ inputs (n + 1)).r.state ≠ .ending ∧
      ((run rom s₀ inputs (n + 1)).r.state = .filling →
        ∃ first, Burst (run rom s₀ inputs (n + 1)) first 0 0) := by
  obtain ⟨hregs, hreq, hbus⟩ := hphase.quiet hstate hok.flush
  rw [run_succ]
  cases hregs with
  | inl hsettled =>
    have hs : (next (inputs n) (run rom s₀ inputs n) rom).r.state = .flushing ∨
        (next (inputs n) (run rom s₀ inputs n) rom).r.state = .running :=
      hsettled.state.imp_right fun h => h.1
    rcases hs with hs | hs <;> simp [hs]
  | inr hstarted =>
    have hs : (next (inputs n) (run rom s₀ inputs n) rom).r.state = .filling := hstarted.state
    simp only [hs, ne_eq, reduceCtorEq, not_false_eq_true, true_and]
    intro _
    exact ⟨_, Started.burst hstarted (answer_idle rom hreq hbus).1⟩

theorem Clean.next_quiet (h : Clean rom s₀ inputs n₀ n) (hphase : BusPhase (run rom s₀ inputs n))
    (hok : Delivers rom s₀ inputs n) (hstate : (run rom s₀ inputs n).r.state ≠ .filling) :
    Clean rom s₀ inputs n₀ (n + 1) := by
  obtain ⟨hends, hbegins⟩ := begins_quiet hphase hok hstate
  have hquiet := fetched_quiet (hphase.answer_none hstate hok.flush)
  constructor
  case swept =>
    obtain ⟨m, hm, hlt, hs⟩ := h.swept
    exact ⟨m, hm, by omega, hs⟩
  case entries =>
    intro l hvalid _ o
    rw [hquiet]
    exact h.entry hphase hstate (.inr hvalid) o
  case burst =>
    intro hs
    obtain ⟨first, hburst⟩ := hbegins hs
    exact ⟨first, 0, 0, hburst, fun j hj => by omega⟩
  case line => exact fun hs => absurd hs hends
  case registers =>
    intro k hk hkn haccepts _ hvalid
    exact h.registers_quiet hphase hok hstate k hk hkn haccepts hvalid

/-- The answer makes the next word of the line fresh. -/
theorem fresh_advances {first : Offset} {taken acked : Nat} (hn : n₀ ≤ n)
    (hburst : Burst (run rom s₀ inputs n) first taken acked)
    (hfresh : ∀ j < acked, Fresh n₀
      (fetched rom s₀ inputs n (run rom s₀ inputs n).r.lineSave (Slave.ring first j)))
    (hanswer : (answer (inputs n) (run rom s₀ inputs n)).isSome = true) :
    ∀ j < acked + 1, Fresh n₀
      (fetched rom s₀ inputs (n + 1) (run rom s₀ inputs n).r.lineSave (Slave.ring first j)) := by
  intro j hj
  by_cases hlast : j = acked
  · obtain ⟨q, hq⟩ := Option.isSome_iff_exists.mp hanswer
    have htag : q.tag = Slave.ring first j := by
      rw [hburst.answer hq, hlast]
      rfl
    refine ⟨n, hn, ?_⟩
    simp [fetched, hq, htag]
  · exact (hfresh j (by omega)).succ hn

theorem Clean.next_filling (h : Clean rom s₀ inputs n₀ n)
    (hstate : (run rom s₀ inputs n).r.state = .filling) : Clean rom s₀ inputs n₀ (n + 1) := by
  obtain ⟨m, hm, hlt, hs⟩ := h.swept
  have hn : n₀ ≤ n := by omega
  obtain ⟨first, taken, acked, hburst, hfresh⟩ := h.burst hstate
  have hline : (run rom s₀ inputs (n + 1)).r.lineSave = (run rom s₀ inputs n).r.lineSave :=
    next_lineSave rom hstate
  have hnext := filling_next rom (i := inputs n) hstate
  rw [← run_succ] at hnext
  constructor
  case swept => exact ⟨m, hm, by omega, hs⟩
  case entries =>
    intro l hvalid hprogress o
    have hl : l ≠ (run rom s₀ inputs n).r.lineSave :=
      fun heq => hprogress ⟨hnext, by rw [hline, heq]⟩
    have hvalid : (tagRamNext (run rom s₀ inputs n) l).valid = true := hvalid
    rw [tagRamNext_of_wen hburst.tagMemWen] at hvalid
    exact (h.entries l hvalid (fun hp => hl hp.2.symm) o).succ hn
  case burst =>
    intro hs'
    rw [hline]
    cases hanswer : (answer (inputs n) (run rom s₀ inputs n)).isSome with
    | false =>
      have hnone := Option.not_isSome_iff_eq_none.mp (Bool.eq_false_iff.mp hanswer)
      obtain ⟨-, taken', hburst'⟩ := hburst.waits rom hstate hnone
      exact ⟨first, taken', acked, hburst', fun j hj => (hfresh j hj).succ hn⟩
    | true =>
      have hmore : (run rom s₀ inputs n).r.offcntWrite ≠ 0#4 := by
        intro hlast
        have hends := (hburst.ends rom hstate hanswer hlast).2.1
        rw [← run_succ, hs'] at hends
        cases hends
      obtain ⟨-, taken', hburst'⟩ := hburst.advances rom hstate hanswer hmore
      exact ⟨first, taken', acked + 1, hburst', fresh_advances hn hburst hfresh hanswer⟩
  case line =>
    intro hs' o
    rw [hline]
    -- the fill ended with its sixteenth answer
    have hlast : (answer (inputs n) (run rom s₀ inputs n)).isSome = true ∧
        (run rom s₀ inputs n).r.offcntWrite = 0#4 := by
      rw [run_succ, next_state rom hstate] at hs'
      simp only [fillingNext, hstate] at hs'
      split_ifs at hs' with h
      simpa using h
    have hacked := (hburst.ends rom hstate hlast.1 hlast.2).1
    obtain ⟨j, hj, rfl⟩ := Slave.exists_ring first o
    exact fresh_advances hn hburst hfresh hlast.1 j (by omega)
  case registers =>
    intro k _ _ _ hs'
    rcases hnext with h | h <;> simp [h] at hs'

theorem Clean.start (hphase : BusPhase (run rom s₀ inputs n)) (hok : Delivers rom s₀ inputs n)
    (hn : n₀ ≤ n) (hstate : (run rom s₀ inputs n).r.state = .flushing)
    (hempty : Empty (run rom s₀ inputs (n + 1)))
    (hrefused : ∀ k < n + 1, n₀ < k → accepts (inputs k) (run rom s₀ inputs k) = false) :
    Clean rom s₀ inputs n₀ (n + 1) := by
  obtain ⟨hends, hbegins⟩ := begins_quiet hphase hok (by simp [hstate])
  constructor
  case swept => exact ⟨n, hn, by omega, hstate⟩
  case entries =>
    intro l hvalid
    rw [hempty l] at hvalid
    cases hvalid
  case burst =>
    intro hs
    obtain ⟨first, hburst⟩ := hbegins hs
    exact ⟨first, 0, 0, hburst, fun j hj => by omega⟩
  case line => exact fun hs => absurd hs hends
  case registers =>
    intro k hk hkn haccepts
    rw [hrefused k hkn hk] at haccepts
    cases haccepts

end After

/-! ## The flush -/

section Flush

/-- The clocks that keep a flush: besides what keeps the deliveries of a fill, it does not come in
the ending state with no flush pending, and an access that misses is not aborted, which shows its
word as valid. -/
@[mk_iff] structure FlushKept (rom : Word → Word) (s₀ : Icache) (inputs : Nat → IcacheInput)
    (n : Nat) : Prop extends Delivers rom s₀ inputs n where
  ending : (run rom s₀ inputs n).r.state = .ending → (run rom s₀ inputs n).r.flush = false →
    (inputs n).flush = false
  abort : (run rom s₀ inputs n).r.state = .running → (run rom s₀ inputs n).r.accessQ = true →
    (run rom s₀ inputs n).r.enableQ = true → hit (run rom s₀ inputs n) = false →
      (inputs n).abort = false

instance (rom : Word → Word) (s₀ : Icache) (inputs : Nat → IcacheInput) (n : Nat) :
    Decidable (FlushKept rom s₀ inputs n) :=
  decidable_of_iff _ (flushKept_iff ..).symm

def FillsComplete (rom : Word → Word) (s₀ : Icache) (inputs : Nat → IcacheInput) : Prop :=
  ∀ n, (run rom s₀ inputs n).r.state = .filling →
    ∃ m ≥ n, (run rom s₀ inputs m).r.state ≠ .filling

variable {rom : Word → Word} {s₀ : Icache} {inputs : Nat → IcacheInput} {n₀ n : Nat}

theorem Swept.run (hreset : Reset s₀) (n : Nat) : Swept (run rom s₀ inputs n) := by
  induction n with
  | zero => exact hreset.swept
  | succ n ih => exact ih.next rom

def flushRank (s : Icache) : Nat :=
  match s.r.state with
  | .running => 0
  | .flushing => s.r.flushcnt.toNat
  | .ending => 128
  | .filling => 129

theorem Pending.empties (hreset : Reset s₀) (hfills : FillsComplete rom s₀ inputs)
    (h : Pending (run rom s₀ inputs n)) : ∃ m > n, Empty (run rom s₀ inputs m) := by
  apply Run.eventually_of_rank (A := fun k => Pending (Icache.run rom s₀ inputs k))
    (fun k => flushRank (Icache.run rom s₀ inputs k)) _ h
  intro k hk
  have hswept : ∀ k, Swept (Icache.run rom s₀ inputs k) := .run hreset
  rcases hk with hs | ⟨hs, hflush⟩ | ⟨hs, hflush, hfault⟩
  · refine ⟨k + 1, by omega, ?_⟩
    by_cases hlast : (Icache.run rom s₀ inputs k).r.flushcnt = 0#7
    · exact .inl ((hswept k).empty rom hs hlast)
    · obtain ⟨hs', hcnt, -⟩ := sweep_next rom (i := inputs k) hs hlast
      rw [← run_succ] at hs' hcnt
      refine .inr ⟨.inl hs', ?_⟩
      simp only [flushRank, hs, hs', hcnt]
      bv_omega
  · obtain ⟨hs', hcnt⟩ := ending_flushes rom (i := inputs k) hs hflush
    rw [← run_succ] at hs' hcnt
    refine ⟨k + 1, by omega, .inr ⟨.inl hs', ?_⟩⟩
    simp [flushRank, hs, hs', hcnt]
  · -- the fill ends with the flush still pending
    obtain ⟨m, hm, hpending, hleft⟩ := Run.eventually_of_event
      (fun j => Pending (Icache.run rom s₀ inputs j) ∧
        (Icache.run rom s₀ inputs j).r.state = .filling)
      (B := fun j => Pending (Icache.run rom s₀ inputs j) ∧
        (Icache.run rom s₀ inputs j).r.state ≠ .filling)
      (fun j => (Icache.run rom s₀ inputs j).r.state ≠ .filling)
      (by
        rintro j ⟨hpending, hfilling⟩
        have hnext := hpending.next rom (i := inputs j) (hswept j)
        rw [hfilling, ← run_succ] at hnext
        have hpending' := hnext.resolve_right (by simp)
        by_cases hstays : (Icache.run rom s₀ inputs (j + 1)).r.state = .filling
        · exact .inr ⟨⟨hpending', hstays⟩, by simp [hfilling]⟩
        · exact .inl ⟨hpending', hstays⟩)
      ⟨.inr (.inr ⟨hs, hflush, hfault⟩), hs⟩ (hfills k hs)
    refine ⟨m, hm, .inr ⟨hpending, ?_⟩⟩
    have hlt := (Icache.run rom s₀ inputs m).r.flushcnt.isLt
    cases hs' : (Icache.run rom s₀ inputs m).r.state with
    | filling => exact absurd hs' hleft
    | _ =>
      simp only [flushRank, hs, hs']
      omega

theorem FlushKept.pending (h : FlushKept rom s₀ inputs n) (hflush : (inputs n).flush = true)
    (hstate : (run rom s₀ inputs n).r.state = .ending) :
    (run rom s₀ inputs n).r.flush = true := by
  by_contra hnone
  rw [h.ending hstate (by simpa using hnone)] at hflush
  cases hflush

/-- From the flush on, it is pending or its sweep is over. -/
theorem flushed (hreset : Reset s₀) (hok : ∀ k, FlushKept rom s₀ inputs k)
    (hflush : (inputs n₀).flush = true) (hn : n₀ < n) :
    Pending (run rom s₀ inputs n) ∧
        (∀ k < n, n₀ < k → accepts (inputs k) (run rom s₀ inputs k) = false) ∨
      Clean rom s₀ inputs n₀ n := by
  have hphase : ∀ k, BusPhase (run rom s₀ inputs k) := fun k =>
    .run hreset fun j _ => (hok j).toDelivers
  induction n, hn using Nat.le_induction with
  | base =>
    have htaken := flush_taken rom hflush (.run hreset n₀) ((hok n₀).pending hflush)
    rcases htaken with hpending | ⟨hempty, hs⟩
    · exact .inl ⟨hpending, fun k hk hlt => by omega⟩
    · exact .inr (.start (hphase n₀) (hok n₀).toDelivers le_rfl hs hempty
        fun k hk hlt => by omega)
  | succ n hn ih =>
    rcases ih with ⟨hpending, hrefused⟩ | hclean
    · have hrefused' : ∀ k < n + 1, n₀ < k →
          accepts (inputs k) (run rom s₀ inputs k) = false := by
        intro k hk hlt
        by_cases heq : k = n
        · rw [heq]
          exact hpending.accepts
        · exact hrefused k (by omega) hlt
      rcases hpending.next rom (i := inputs n) (.run hreset n) with hpending' | ⟨hempty, hs⟩
      · exact .inl ⟨hpending', hrefused'⟩
      · exact .inr (.start (hphase n) (hok n).toDelivers (by omega) hs hempty hrefused')
    · right
      by_cases hs : (run rom s₀ inputs n).r.state = .filling
      · exact hclean.next_filling hs
      · exact hclean.next_quiet (hphase n) (hok n).toDelivers hs

/-- What is shown as valid after the sweep is fresh. -/
theorem Clean.delivers (h : Clean rom s₀ inputs n₀ n) (hreset : Reset s₀)
    (hok : ∀ k, FlushKept rom s₀ inputs k) {k : Nat} (hk : n₀ < k)
    (hlast : LastAccepted rom s₀ inputs k n)
    (hvalid : dataValid (inputs n) (run rom s₀ inputs n) = true) :
    Fresh n₀ (shown rom s₀ inputs n) := by
  cases hs : (run rom s₀ inputs n).r.state with
  | flushing => simp [dataValid, hs] at hvalid
  | ending => simp [dataValid, hs] at hvalid
  | running =>
    have hhit : hit (run rom s₀ inputs n) = true := by
      by_contra hmiss
      rw [Bool.not_eq_true] at hmiss
      have habort := (hok n).abort hs
      simp only [dataValid, hs, misses, hmiss] at hvalid
      split_ifs at hvalid with haccess
      · simp only [Bool.and_eq_true] at haccess
        simp [haccess, habort haccess.1 haccess.2 hmiss] at hvalid
    simp only [hit, Bool.and_eq_true] at hhit
    exact h.registers k hk hlast.1 hlast.2.1 (.inl hs) hhit.2
  | filling =>
    obtain ⟨t, hat, hshown, -⟩ := delivered hreset (fun j _ => (hok j).toDelivers) hs hvalid
    obtain ⟨m, hm, hmn, hflushing⟩ := h.swept
    refine ⟨t, ?_, hshown⟩
    -- the fill that answered began after the sweep
    by_contra hbefore
    have hfilling := hat.2.1 m (by omega) (by omega)
    rw [hflushing] at hfilling
    cases hfilling

end Flush

/-- In a run from reset whose clocks keep a flush and whose fills complete, a flush in any clock
leaves no line valid in some later clock, and a word shown as valid for an access that was taken
after it was fetched after it. -/
theorem flush_never_lost (rom : Word → Word) {s₀ : Icache} (inputs : Nat → IcacheInput) (n₀ : Nat)
    (hreset : Reset s₀) (hok : ∀ k, FlushKept rom s₀ inputs k)
    (hfills : FillsComplete rom s₀ inputs) (hflush : (inputs n₀).flush = true) :
    (∃ m > n₀, Empty (run rom s₀ inputs m)) ∧
      ∀ k n, n₀ < k → LastAccepted rom s₀ inputs k n →
        dataValid (inputs n) (run rom s₀ inputs n) = true →
        ∃ t ≥ n₀, shown rom s₀ inputs n = some t := by
  constructor
  · have htaken := flush_taken rom hflush (.run hreset n₀) ((hok n₀).pending hflush)
    rcases htaken with hpending | ⟨hempty, -⟩
    · obtain ⟨m, hm, hempty⟩ := Pending.empties (n := n₀ + 1) hreset hfills hpending
      exact ⟨m, by omega, hempty⟩
    · exact ⟨n₀ + 1, by omega, hempty⟩
  · intro k n hk hlast hvalid
    have hlt := hlast.1
    rcases flushed hreset hok hflush (n := n) (by omega) with ⟨-, hrefused⟩ | hclean
    · have := hlast.2.1
      rw [hrefused k hlt hk] at this
      cases this
    · exact hclean.delivers hreset hok hk hlast hvalid

/-! ### Two pulses -/

/-- Nothing is asked for, and the line memory stays as it is. -/
@[mk_iff] structure Idle (s : Icache) : Prop where
  state : s.r.state = .running
  accessQ : s.r.accessQ = false
  tagMemWen : s.r.tagMemWen = false

instance (s : Icache) : Decidable (Idle s) :=
  decidable_of_iff _ (idle_iff ..).symm

theorem Idle.next (rom : Word → Word) {i : IcacheInput} {s : Icache} (h : Idle s)
    (hstrobe : i.strobe = false) (hflush : i.flush = false) :
    Idle (next i s rom) ∧ (Icache.next i s rom).tagRam = s.tagRam := by
  have hcase : caseNext i s = runningNext i s := by simp [caseNext, h.state]
  have hmiss : misses i s = false := by simp [misses, h.accessQ]
  refine ⟨⟨?_, ?_, ?_⟩, tagRamNext_of_wen h.tagMemWen⟩
  · simp [Icache.next, regsNext, hcase, runningNext, hmiss, hflush, defaults, h.state]
  · simp [Icache.next, regsNext, hcase, stallInput, h.state, hmiss, hflush, hstrobe]
  · simp [Icache.next, regsNext, hcase, runningNext, hmiss, hflush, defaults]

theorem Idle.run {rom : Word → Word} {s₀ : Icache} {inputs : Nat → IcacheInput} {m n : Nat}
    (h : Idle (run rom s₀ inputs m)) (hn : m ≤ n)
    (hquiet : ∀ k ≥ m, (inputs k).strobe = false ∧ (inputs k).flush = false) :
    Idle (run rom s₀ inputs n) ∧
      (Icache.run rom s₀ inputs n).tagRam = (Icache.run rom s₀ inputs m).tagRam := by
  induction n, hn using Nat.le_induction with
  | base => exact ⟨h, rfl⟩
  | succ n hn ih =>
    have hnext := ih.1.next rom (hquiet n hn).1 (hquiet n hn).2
    exact ⟨hnext.1, hnext.2.trans ih.2⟩

theorem Idle.flushKept {rom : Word → Word} {s₀ : Icache} {inputs : Nat → IcacheInput} {n : Nat}
    (h : Idle (Icache.run rom s₀ inputs n)) : FlushKept rom s₀ inputs n where
  arrived htrigger := by simp [Triggers, h.state] at htrigger
  flush hs := by simp [h.state] at hs
  ending hs := by simp [h.state] at hs
  abort _ haccess := by simp [h.accessQ] at haccess

/-- A fill of the first line, one more access in clock `again`, and a flush. -/
def pulse (again flushed k : Nat) : IcacheInput :=
  { IcacheInput.answering (decide (k ≤ 130) || k == again) with flush := k == flushed }

theorem flush_never_lost_filling :
    (run addressed reset (pulse 0 135) 135).r.state = .filling ∧
      ∃ m > 135, Empty (run addressed reset (pulse 0 135) m) := by
  have hidle : ∀ n ≥ 275, Idle (run addressed reset (pulse 0 135) n) := fun n hn =>
    (Idle.run (m := 275) (by decide +kernel) hn fun k hk => by
      constructor <;> simp [pulse, IcacheInput.answering] <;> omega).1
  refine ⟨by decide +kernel, (flush_never_lost addressed (pulse 0 135) 135 reset_reset ?_ ?_ rfl).1⟩
  · intro k
    by_cases hk : k < 275
    · have hkept : ∀ k < 275, FlushKept addressed reset (pulse 0 135) k := by decide +kernel
      exact hkept k hk
    · exact (hidle k (by omega)).flushKept
  · intro n _
    refine ⟨n + 275, by omega, ?_⟩
    rw [(hidle (n + 275) (by omega)).state]
    simp

/-- A flush in the ending state is lost: the line stays valid, and the next access gets a word that
was fetched before. -/
theorem flush_in_ending_lost :
    Reset reset ∧ (pulse 147 146 146).flush = true ∧
      (run addressed reset (pulse 147 146) 146).r.state = .ending ∧
      FillsComplete addressed reset (pulse 147 146) ∧
      (∀ n > 146, ((run addressed reset (pulse 147 146) n).tagRam 0).valid = true) ∧
      LastAccepted addressed reset (pulse 147 146) 147 148 ∧
      dataValid (pulse 147 146 148) (run addressed reset (pulse 147 146) 148) = true ∧
      shown addressed reset (pulse 147 146) 148 = some 130 := by
  have hidle : ∀ n ≥ 149, Idle (run addressed reset (pulse 147 146) n) ∧
      (run addressed reset (pulse 147 146) n).tagRam =
        (run addressed reset (pulse 147 146) 149).tagRam := fun n hn =>
    Idle.run (m := 149) (by decide +kernel) hn fun k hk => by
      constructor <;> simp [pulse, IcacheInput.answering] <;> omega
  refine ⟨reset_reset, rfl, by decide +kernel, ?_, ?_, by decide +kernel, by decide +kernel,
    by decide +kernel⟩
  · intro n _
    refine ⟨n + 149, by omega, ?_⟩
    rw [(hidle (n + 149) (by omega)).1.state]
    simp
  · intro n hn
    by_cases hlate : 149 ≤ n
    · rw [(hidle n hlate).2]
      decide +kernel
    · have hvalid : ∀ n < 149, n > 146 →
          ((run addressed reset (pulse 147 146) n).tagRam 0).valid = true := by decide +kernel
      exact hvalid n (by omega) hn

end Icache

end Xtc
