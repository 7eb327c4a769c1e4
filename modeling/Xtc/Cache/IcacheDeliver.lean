import Xtc.Cache.IcacheFill

/-!
# IcacheDeliver — the words that are delivered while a line is filled

Any answer of the fill makes the cache deliver, in the next clock, what the line memory held for the
address register in the clock of the answer.  That is the right word if the address register's own
word had come by then, and if the line memory was read at all.

Every word in the line memory and in the data register was answered in some clock; the results are
about that clock.
-/

namespace Xtc

namespace Icache

def wordOf (a : Word) : Word := wordAddress (tagOf a) (lineOf a) (offsetOf a)

section Source

variable (rom : Word → Word) (s₀ : Icache) (inputs : Nat → IcacheInput)

/-- The clock that answered a word of the line memory. -/
def fetched : Nat → LineId → Offset → Option Nat
  | 0 => fun _ _ => none
  | n + 1 => fun l o =>
    match answer (inputs n) (run rom s₀ inputs n) with
    | some q => if l = (run rom s₀ inputs n).r.lineSave ∧ o = q.tag then some n else fetched n l o
    | none => fetched n l o

/-- The clock that answered the word of the data register. -/
def shown : Nat → Option Nat
  | 0 => none
  | n + 1 =>
    let i := inputs n
    let a := cacheAddrRead i (run rom s₀ inputs n)
    if cacheMemEnable i (run rom s₀ inputs n) then
      (if i.collide then fetched rom s₀ inputs (n + 1) else fetched rom s₀ inputs n)
        (lineOf a) (offsetOf a)
    else shown n

def LastAccepted (k n : Nat) : Prop :=
  k < n ∧ accepts (inputs k) (run rom s₀ inputs k) = true ∧
    ∀ j < n, k < j → accepts (inputs j) (run rom s₀ inputs j) = false

/-- Clock `t` answered word `o` of the fill that clock `n` is in. -/
def AnsweredAt (t n : Nat) (o : Offset) : Prop :=
  t < n ∧ (∀ m ≤ n, t ≤ m → (run rom s₀ inputs m).r.state = .filling) ∧
    (answer (inputs t) (run rom s₀ inputs t)).map (·.tag) = some o

def Answered (n : Nat) (o : Offset) : Prop := ∃ t < n, AnsweredAt rom s₀ inputs t n o

instance (k n : Nat) : Decidable (LastAccepted rom s₀ inputs k n) :=
  inferInstanceAs (Decidable (_ ∧ _))

instance (t n : Nat) (o : Offset) : Decidable (AnsweredAt rom s₀ inputs t n o) :=
  inferInstanceAs (Decidable (_ ∧ _))

instance (n : Nat) (o : Offset) : Decidable (Answered rom s₀ inputs n o) :=
  inferInstanceAs (Decidable (∃ t < n, _))

end Source

/-- An answer, not the last one, to a core that waits. -/
def Triggers (i : IcacheInput) (s : Icache) : Prop :=
  s.r.state = .filling ∧ s.r.iwfready = false ∧ i.enable = true ∧ (answer i s).isSome = true ∧
    s.r.offcntWrite ≠ 0

instance (i : IcacheInput) (s : Icache) : Decidable (Triggers i s) :=
  inferInstanceAs (Decidable (_ ∧ _))

section Conditions

variable (rom : Word → Word) (s₀ : Icache) (inputs : Nat → IcacheInput) (n : Nat)

/-- The line memory is read, and has the word of the address register. -/
def Arrived : Prop :=
  (inputs n).strobe = true ∧
    (Answered rom s₀ inputs n (offsetOf (run rom s₀ inputs n).r.saveAddr) ∨
      (inputs n).collide = true ∧ (answer (inputs n) (run rom s₀ inputs n)).map (·.tag) =
        some (offsetOf (run rom s₀ inputs n).r.saveAddr))

instance : Decidable (Arrived rom s₀ inputs n) := inferInstanceAs (Decidable (_ ∧ _))

/-- The clocks that keep what is delivered right: a word is there before it is announced, and the
bus takes no request during a flush, since it is answered in the next fill. -/
@[mk_iff] structure Delivers : Prop where
  arrived : Triggers (inputs n) (run rom s₀ inputs n) → Arrived rom s₀ inputs n
  flush : (run rom s₀ inputs n).r.state = .flushing →
    request (inputs n) (run rom s₀ inputs n) = none

instance : Decidable (Delivers rom s₀ inputs n) :=
  decidable_of_iff _ (delivers_iff ..).symm

end Conditions

/-! ## What is at the bus -/

section BusPhase

/-- As `Phase`, without the contents of the line. -/
inductive BusPhase (s : Icache) : Prop
  | idle (hstate : s.r.state = .flushing ∨ s.r.state = .running ∧ s.r.tagMemWen = false)
      (hcyc : s.r.state = .running → s.r.cyc = false) (hbus : s.bus = [])
  | filling (first : Offset) (taken acked : Nat) (hstate : s.r.state = .filling)
      (hburst : Burst s first taken acked)
  | ending (hstate : s.r.state = .ending) (hstb : s.r.stb = false) (hbus : s.bus = [])
      (hwen : s.r.tagMemWen = true)

variable {rom : Word → Word} {i : IcacheInput} {s : Icache}

theorem Reset.busPhase (h : Reset s) : BusPhase s :=
  .idle (.inl h.state) (fun _ => h.cyc) h.bus

theorem BusPhase.of_regs (h : Settled s.r ∨ Started s.r) (hbus : s.bus = []) : BusPhase s := by
  cases h with
  | inl h => exact .idle h.state h.cyc hbus
  | inr h => exact .filling s.r.offcnt 0 0 h.state (h.burst hbus)

theorem BusPhase.burst (h : BusPhase s) (hstate : s.r.state = .filling) :
    ∃ first taken acked, Burst s first taken acked := by
  cases h with
  | idle hs => simp [hstate] at hs
  | ending hs => simp [hstate] at hs
  | filling first taken acked _ hburst => exact ⟨first, taken, acked, hburst⟩

/-- Outside a fill the bus is idle, and stays so or a fill begins. -/
theorem BusPhase.quiet (h : BusPhase s) (hstate : s.r.state ≠ .filling)
    (hkept : s.r.state = .flushing → request i s = none) :
    (Settled (regsNext i s) ∨ Started (regsNext i s)) ∧ request i s = none ∧ s.bus = [] := by
  cases h with
  | idle hs hcyc hbus =>
    cases hs with
    | inl hs => exact ⟨regsNext_flushing hs, hkept hs, hbus⟩
    | inr hs => exact ⟨regsNext_running hs.1, by simp [request, hcyc hs.1], hbus⟩
  | filling _ _ _ hs => exact absurd hs hstate
  | ending hs hstb hbus => exact ⟨regsNext_ending hs, by simp [request, hstb], hbus⟩

variable (rom) in
theorem BusPhase.next (h : BusPhase s) (hkept : s.r.state = .flushing → request i s = none) :
    BusPhase (next i s rom) := by
  by_cases hfilling : s.r.state = .filling
  · obtain ⟨first, taken, acked, hburst⟩ := h.burst hfilling
    cases hanswer : (answer i s).isSome with
    | false =>
      have hnone : answer i s = none := Option.not_isSome_iff_eq_none.mp (by simp [hanswer])
      obtain ⟨hstate', taken', hburst'⟩ := hburst.waits rom hfilling hnone
      exact .filling first taken' acked hstate' hburst'
    | true =>
      by_cases hlast : s.r.offcntWrite = 0#4
      · obtain ⟨-, hstate', hstb, hbus, hwen⟩ := hburst.ends rom hfilling hanswer hlast
        exact .ending hstate' hstb hbus hwen
      · obtain ⟨hstate', taken', hburst'⟩ := hburst.advances rom hfilling hanswer hlast
        exact .filling first taken' (acked + 1) hstate' hburst'
  · obtain ⟨hregs, hreq, hbus⟩ := h.quiet hfilling hkept
    exact .of_regs hregs (answer_idle rom hreq hbus).1

theorem BusPhase.answer_none (h : BusPhase s) (hstate : s.r.state ≠ .filling)
    (hkept : s.r.state = .flushing → request i s = none) : answer i s = none := by
  obtain ⟨-, hreq, hbus⟩ := h.quiet hstate hkept
  simp [answer, offered, hreq, hbus]

theorem BusPhase.answer_word (h : BusPhase s) (hstate : s.r.state = .filling) {q : IcacheRequest}
    (hanswer : answer i s = some q) : q.adr = wordAddress s.r.wbaddr s.r.lineSave q.tag := by
  obtain ⟨first, taken, acked, hburst⟩ := h.burst hstate
  rw [hburst.answer hanswer]
  rfl

end BusPhase

/-! ## Where the words come from -/

section Source

variable {rom : Word → Word} {s₀ : Icache} {inputs : Nat → IcacheInput} {n : Nat}

theorem run_succ :
    run rom s₀ inputs (n + 1) = next (inputs n) (run rom s₀ inputs n) rom := rfl

variable (rom) in
theorem saveAddr_next (i : IcacheInput) (s : Icache) :
    (next i s rom).r.saveAddr = if accepts i s then i.address else s.r.saveAddr := by
  have hcase : (caseNext i s).saveAddr = s.r.saveAddr := by
    unfold caseNext
    cases s.r.state with
    | flushing => unfold flushingNext; simp only []; split_ifs <;> rfl
    | running => unfold runningNext; simp only []; split_ifs <;> rfl
    | filling => rfl
    | ending => unfold endingNext; simp only []; split_ifs <;> rfl
  show (if accepts i s then i.address else (caseNext i s).saveAddr) = _
  rw [hcase]

theorem fetched_word {l : LineId} {o : Offset} {t : Nat}
    (h : fetched rom s₀ inputs n l o = some t) :
    t < n ∧ ∃ q, answer (inputs t) (run rom s₀ inputs t) = some q ∧
      (run rom s₀ inputs n).dataRam l o = rom q.adr := by
  induction n with
  | zero => cases h
  | succ n ih =>
    show _ ∧ ∃ q, _ ∧ dataRamNext (inputs n) (run rom s₀ inputs n) rom l o = _
    simp only [fetched] at h
    unfold dataRamNext
    cases hanswer : answer (inputs n) (run rom s₀ inputs n) with
    | none =>
      simp only [hanswer] at h
      obtain ⟨hlt, q, hq, hword⟩ := ih h
      exact ⟨by omega, q, hq, hword⟩
    | some q =>
      simp only [hanswer] at h
      by_cases hwritten : l = (run rom s₀ inputs n).r.lineSave ∧ o = q.tag
      · simp only [if_pos hwritten, Option.some.injEq] at h ⊢
        subst h
        exact ⟨by omega, q, hanswer, rfl⟩
      · simp only [if_neg hwritten] at h ⊢
        obtain ⟨hlt, q', hq', hword⟩ := ih h
        exact ⟨by omega, q', hq', hword⟩

theorem shown_word {t : Nat} (h : shown rom s₀ inputs n = some t) :
    t < n ∧ ∃ q, answer (inputs t) (run rom s₀ inputs t) = some q ∧
      (run rom s₀ inputs n).data = rom q.adr := by
  induction n with
  | zero => cases h
  | succ n ih =>
    rw [shown] at h
    rw [run_succ, next]
    by_cases hread : cacheMemEnable (inputs n) (run rom s₀ inputs n) = true
    · simp only [if_pos hread] at h ⊢
      cases hcollide : (inputs n).collide with
      | true =>
        simp only [hcollide, if_true] at h ⊢
        exact fetched_word h
      | false =>
        simp only [hcollide, Bool.false_eq_true, if_false] at h ⊢
        obtain ⟨hlt, q, hq, hword⟩ := fetched_word h
        exact ⟨by omega, q, hq, hword⟩
    · simp only [if_neg hread] at h ⊢
      obtain ⟨hlt, q, hq, hword⟩ := ih h
      exact ⟨by omega, q, hq, hword⟩

theorem LastAccepted.saveAddr {k : Nat} (h : LastAccepted rom s₀ inputs k n) :
    (run rom s₀ inputs n).r.saveAddr = (inputs k).address := by
  obtain ⟨hlt, haccepts, hlast⟩ := h
  induction n with
  | zero => omega
  | succ n ih =>
    have hsave : (run rom s₀ inputs (n + 1)).r.saveAddr =
        if accepts (inputs n) (run rom s₀ inputs n) then (inputs n).address
        else (run rom s₀ inputs n).r.saveAddr := saveAddr_next _ _ _
    rw [hsave]
    by_cases hk : k = n
    · rw [← hk, haccepts, if_pos rfl]
    · rw [hlast n (by omega) (by omega), if_neg (by simp)]
      exact ih (by omega) fun j hj => hlast j (by omega)

theorem AnsweredAt.succ {t : Nat} {o : Offset} (h : AnsweredAt rom s₀ inputs t n o)
    (hstate : (run rom s₀ inputs (n + 1)).r.state = .filling) :
    AnsweredAt rom s₀ inputs t (n + 1) o := by
  obtain ⟨hlt, hfilling, htag⟩ := h
  refine ⟨by omega, ?_, htag⟩
  intro m hm ht
  by_cases hlast : m = n + 1
  · rw [hlast]
    exact hstate
  · exact hfilling m (by omega) ht

/-- What the fill has answered is in the line. -/
theorem Answered.fetched {o : Offset} (h : Answered rom s₀ inputs n o) :
    ∃ t, AnsweredAt rom s₀ inputs t n o ∧
      fetched rom s₀ inputs n (run rom s₀ inputs n).r.lineSave o = some t := by
  induction n with
  | zero =>
    obtain ⟨t, ht, -⟩ := h
    omega
  | succ n ih =>
    obtain ⟨t, -, hlt, hfilling, htag⟩ := h
    have hstate := hfilling n (by omega) (by omega)
    have hstate' := hfilling (n + 1) (by omega) (by omega)
    have hline : (run rom s₀ inputs (n + 1)).r.lineSave = (run rom s₀ inputs n).r.lineSave :=
      next_lineSave rom hstate
    rw [hline]
    by_cases hnow : (answer (inputs n) (run rom s₀ inputs n)).map (·.tag) = some o
    · refine ⟨n, ⟨by omega, ?_, hnow⟩, ?_⟩
      · intro m hm hn
        exact hfilling m hm (by omega)
      · obtain ⟨q, hq, htag'⟩ := Option.map_eq_some_iff.mp hnow
        simp only [Icache.fetched, hq, htag', and_self, if_true]
    · have hbefore : t < n := by
        by_contra hge
        have : t = n := by omega
        exact hnow (this ▸ htag)
      obtain ⟨t', hat, hfetched⟩ :=
        ih ⟨t, hbefore, hbefore, fun m hm => hfilling m (by omega), htag⟩
      refine ⟨t', hat.succ hstate', ?_⟩
      rw [← hfetched]
      simp only [Icache.fetched]
      cases hanswer : answer (inputs n) (run rom s₀ inputs n) with
      | none => rfl
      | some q =>
        have hne : o ≠ q.tag := fun heq => hnow (by simp [hanswer, heq])
        simp only [hne, and_false, if_false]

/-- A fill stays with its line. -/
theorem AnsweredAt.line {t : Nat} {o : Offset} (h : AnsweredAt rom s₀ inputs t n o) :
    (run rom s₀ inputs n).r.lineSave = (run rom s₀ inputs t).r.lineSave ∧
      (run rom s₀ inputs n).r.wbaddr = (run rom s₀ inputs t).r.wbaddr := by
  obtain ⟨hlt, hfilling, -⟩ := h
  induction n, hlt.le using Nat.le_induction with
  | base => exact ⟨rfl, rfl⟩
  | succ n hn ih =>
    have hstate := hfilling n (by omega) hn
    rw [run_succ, next_lineSave rom hstate, next_wbaddr rom hstate]
    by_cases heq : t = n
    · rw [heq]
      exact ⟨rfl, rfl⟩
    · exact ih (by omega) fun m hm => hfilling m (by omega)

theorem BusPhase.run {n : Nat} (hreset : Reset s₀) (hok : ∀ k < n, Delivers rom s₀ inputs k) :
    BusPhase (run rom s₀ inputs n) := by
  induction n with
  | zero => exact hreset.busPhase
  | succ n ih => exact (ih fun k hk => hok k (by omega)).next rom (hok n (by omega)).flush

end Source

/-! ## A clock of the delivery -/

section Delivery

variable {rom : Word → Word} {s₀ : Icache} {inputs : Nat → IcacheInput} {n : Nat}

/-- The three ways in which a fill serves the core: not at all, not yet, or with the word of `t`. -/
inductive Serving (rom : Word → Word) (s₀ : Icache) (inputs : Nat → IcacheInput) (n : Nat) : Prop
  | refused (hfault : (run rom s₀ inputs n).r.fault = true)
  | elsewhere (haccess : (run rom s₀ inputs n).r.accessQ = true)
      (hline : accessToSameLine (run rom s₀ inputs n) = false)
  | here (hline : accessToSameLine (run rom s₀ inputs n) = true)
      (htag : (run rom s₀ inputs n).r.tagSave = (run rom s₀ inputs n).r.wbaddr)
      (hword : (run rom s₀ inputs n).r.iwfready = true →
        ∃ t, AnsweredAt rom s₀ inputs t n (offsetOf (run rom s₀ inputs n).r.saveAddr) ∧
          shown rom s₀ inputs n = some t)

/-! ### A fill begins -/

/-- Nothing is announced, and the address is the one the fill is for or waits for the next fill. -/
theorem fill_begins {i : IcacheInput} {s : Icache} (hstate : s.r.state ≠ .filling)
    (hnext : (next i s rom).r.state = .filling) :
    (next i s rom).r.iwfready = false ∧
      (next i s rom).r.wbaddr = tagOf (next i s rom).r.saveAddr ∧
      (accessToSameLine (next i s rom) = true ∨ (next i s rom).r.accessQ = true) := by
  change (regsNext i s).state = _ at hnext
  show (regsNext i s).iwfready = _ ∧ (regsNext i s).wbaddr = tagOf (regsNext i s).saveAddr ∧
    (((regsNext i s).lineSave == lineOf (regsNext i s).saveAddr &&
      (regsNext i s).tagSave == tagOf (regsNext i s).saveAddr) = true ∨
      (regsNext i s).accessQ = true)
  cases hs : s.r.state with
  | filling => exact absurd hs hstate
  | flushing =>
    have haccepts : accepts i s = false := by simp [accepts, stallInput, hs]
    have hcase : caseNext i s = flushingNext i s := by simp [caseNext, hs]
    by_cases hstart : s.r.flushcnt = 0#7 ∧ s.r.queuedAddress = true ∧ s.r.fault = true
    · simp [regsNext, hcase, haccepts, hs, flushingNext, hstart, startFillQueued, startFill,
        defaults]
    · exfalso
      by_cases hlast : s.r.flushcnt = 0#7
      · have hqueued : ¬ (s.r.queuedAddress = true ∧ s.r.fault = true) := fun h => hstart ⟨hlast, h⟩
        simp [regsNext, hcase, flushingNext, hlast, hqueued] at hnext
      · simp [regsNext, hcase, flushingNext, hlast, defaults, hs] at hnext
  | running =>
    have hcase : caseNext i s = runningNext i s := by simp [caseNext, hs]
    by_cases hstart : misses i s = true ∧ i.flush = false
    · have haccepts : accepts i s = false := by simp [accepts, stallInput, hs, hstart]
      have hmiss := hstart.1
      simp only [misses, Bool.and_eq_true, Bool.not_eq_eq_eq_not, Bool.not_true] at hmiss
      simp [regsNext, hcase, haccepts, hs, runningNext, hstart, startFill, defaults, stallInput,
        hmiss]
    · exfalso
      by_cases hflush : i.flush = true
      · simp [regsNext, hcase, runningNext, hflush, startFlush] at hnext
      · have hmiss : ¬ misses i s = true := fun h => hstart ⟨h, by simpa using hflush⟩
        simp [regsNext, hcase, runningNext, hflush, hmiss, defaults, hs] at hnext
  | ending =>
    have haccepts : accepts i s = false := by simp [accepts, stallInput, hs]
    have hcase : caseNext i s = endingNext i s := by simp [caseNext, hs]
    by_cases hstart : s.r.flush = false ∧ s.r.queuedAddress = true
    · simp [regsNext, hcase, haccepts, hs, endingNext, hstart, startFillQueued, startFill,
        defaults]
    · exfalso
      by_cases hflush : s.r.flush = true
      · simp [regsNext, hcase, endingNext, hflush, startFlush] at hnext
      · have hqueued : ¬ s.r.queuedAddress = true := fun h => hstart ⟨by simpa using hflush, h⟩
        simp [regsNext, hcase, endingNext, hflush, hqueued] at hnext

theorem Serving.start (hstate : (run rom s₀ inputs n).r.state ≠ .filling)
    (hnext : (run rom s₀ inputs (n + 1)).r.state = .filling) : Serving rom s₀ inputs (n + 1) := by
  obtain ⟨hready, htag, hline⟩ := fill_begins hstate hnext
  rw [← run_succ] at hready htag hline
  by_cases hsame : accessToSameLine (run rom s₀ inputs (n + 1)) = true
  · refine .here hsame ?_ ?_
    · rw [htag]
      simp only [accessToSameLine, Bool.and_eq_true, beq_iff_eq] at hsame
      exact hsame.2
    · intro h
      rw [hready] at h
      cases h
  · apply Serving.elsewhere
    · exact hline.resolve_left hsame
    · simpa using hsame

/-! ### A fill goes on -/

section Filling

variable {i : IcacheInput} {s : Icache}

theorem stallInput_filling (hstate : s.r.state = .filling) :
    stallInput i s = (fillStall i s || i.flush) := by
  simp [stallInput, hstate]

variable (rom) in
theorem fault_filling (hstate : s.r.state = .filling) :
    (next i s rom).r.fault = (s.r.fault || fillFault i s || i.flush || i.abort) := by
  show (regsNext i s).fault = _
  rw [regsNext_filling hstate]
  rfl

variable (rom) in
theorem iwfready_filling (hstate : s.r.state = .filling) :
    (next i s rom).r.iwfready =
      if i.enable && s.r.iwfready && i.strobe then false
      else if (answer i s).isSome then i.enable else s.r.iwfready := by
  show (regsNext i s).iwfready = _
  rw [regsNext_filling hstate]
  rfl

variable (rom) in
theorem tagSave_filling (hstate : s.r.state = .filling) :
    (next i s rom).r.tagSave = s.r.tagSave := by
  show (regsNext i s).tagSave = _
  rw [regsNext_filling hstate]
  rfl

variable (rom) in
theorem accessQ_filling (hstate : s.r.state = .filling) :
    (next i s rom).r.accessQ =
      if i.abort then false
      else if stallInput i s then s.r.accessQ else i.strobe && i.enable := by
  have hcase : caseNext i s = fillingNext i s := by simp [caseNext, hstate]
  show (regsNext i s).accessQ = _
  simp only [regsNext, hcase]
  rfl

theorem accepts_filling (hstate : s.r.state = .filling) (h : accepts i s = true) :
    i.strobe = true ∧ i.enable = true ∧ s.r.iwfready = true ∧ stallInput i s = false := by
  simp only [accepts, Bool.and_eq_true, Bool.not_eq_eq_eq_not, Bool.not_true] at h
  have hstall := h.2
  simp only [stallInput_filling hstate, fillStall, Bool.or_eq_false_iff] at hstall
  simp_all

theorem accepts_clears (hstate : s.r.state = .filling) (h : accepts i s = true) :
    (next i s rom).r.iwfready = false := by
  obtain ⟨hstrobe, henable, hready, -⟩ := accepts_filling hstate h
  rw [iwfready_filling rom hstate]
  simp [hstrobe, henable, hready]

end Filling

/-- The announced word was answered by this fill. -/
theorem announced (hok : Delivers rom s₀ inputs n)
    (hstate : (run rom s₀ inputs n).r.state = .filling)
    (hnext : (run rom s₀ inputs (n + 1)).r.state = .filling)
    (hline : lineOf (run rom s₀ inputs n).r.saveAddr = (run rom s₀ inputs n).r.lineSave)
    (hidle : (run rom s₀ inputs n).r.iwfready = false)
    (hready : (run rom s₀ inputs (n + 1)).r.iwfready = true) :
    ∃ t, AnsweredAt rom s₀ inputs t (n + 1) (offsetOf (run rom s₀ inputs n).r.saveAddr) ∧
      shown rom s₀ inputs (n + 1) = some t := by
  rw [run_succ, iwfready_filling rom hstate, hidle] at hready
  have htrigger : (answer (inputs n) (run rom s₀ inputs n)).isSome = true ∧
      (inputs n).enable = true := by
    cases hanswer : (answer (inputs n) (run rom s₀ inputs n)).isSome <;> simp_all
  -- the fill goes on, so this was not its last answer
  have hmore : (run rom s₀ inputs n).r.offcntWrite ≠ 0 := by
    intro hlast
    rw [run_succ, next_state rom hstate] at hnext
    simp [fillingNext, htrigger.1, hlast] at hnext
  obtain ⟨hstrobe, harrived⟩ := hok.arrived ⟨hstate, hidle, htrigger.2, htrigger.1, hmore⟩
  have hread : cacheMemEnable (inputs n) (run rom s₀ inputs n) = true := by
    simp [cacheMemEnable, hstate, htrigger.2, hstrobe]
  have haddr : cacheAddrRead (inputs n) (run rom s₀ inputs n) =
      (run rom s₀ inputs n).r.saveAddr := by
    simp [cacheAddrRead, hstate, hidle]
  simp only [shown, if_pos hread, haddr, hline]
  by_cases hcollide : (inputs n).collide = true
  · -- the word written in this clock is seen
    have hanswered : Answered rom s₀ inputs (n + 1)
        (offsetOf (run rom s₀ inputs n).r.saveAddr) := by
      rcases harrived with ⟨t, hlt, hat⟩ | ⟨-, hnow⟩
      · exact ⟨t, by omega, hat.succ hnext⟩
      · refine ⟨n, by omega, by omega, ?_, hnow⟩
        intro m hm hn
        rcases Nat.lt_or_ge n m with h | h
        · rwa [show m = n + 1 by omega]
        · rwa [show m = n by omega]
    obtain ⟨t, hat, hfetched⟩ := hanswered.fetched
    rw [run_succ, next_lineSave rom hstate] at hfetched
    exact ⟨t, hat, by rw [if_pos hcollide]; exact hfetched⟩
  · obtain ⟨t, hat, hfetched⟩ := (harrived.resolve_right fun h => hcollide h.1).fetched
    exact ⟨t, hat.succ hnext, by rw [if_neg hcollide]; exact hfetched⟩

theorem Serving.step (h : Serving rom s₀ inputs n) (hok : Delivers rom s₀ inputs n)
    (hstate : (run rom s₀ inputs n).r.state = .filling)
    (hnext : (run rom s₀ inputs (n + 1)).r.state = .filling) : Serving rom s₀ inputs (n + 1) := by
  have hfault := fault_filling rom (i := inputs n) hstate
  have haccess := accessQ_filling rom (i := inputs n) hstate
  have hsave := saveAddr_next rom (inputs n) (run rom s₀ inputs n)
  have hline := next_lineSave rom (i := inputs n) hstate
  have htags := tagSave_filling rom (i := inputs n) hstate
  have hwb := next_wbaddr rom (i := inputs n) hstate
  rw [← run_succ] at hfault haccess hsave hline htags hwb
  by_cases habort : (inputs n).abort = true
  · apply Serving.refused
    simp [hfault, habort]
  rw [if_neg habort] at haccess
  cases h with
  | refused h =>
    apply Serving.refused
    simp [hfault, h]
  | elsewhere h hother =>
    -- the address waits for the fill to end
    have hstall : stallInput (inputs n) (run rom s₀ inputs n) = true := by
      simp [stallInput_filling hstate, fillStall, h, hother]
    have haccepts : accepts (inputs n) (run rom s₀ inputs n) = false := by simp [accepts, hstall]
    rw [haccepts, if_neg (by simp)] at hsave
    apply Serving.elsewhere
    · rw [haccess, if_pos hstall, h]
    · simpa only [accessToSameLine, hsave, hline, htags] using hother
  | here hsame htag hword =>
    by_cases haccepts : accepts (inputs n) (run rom s₀ inputs n) = true
    · have hready : (run rom s₀ inputs (n + 1)).r.iwfready = false := accepts_clears hstate haccepts
      obtain ⟨hstrobe, henable, -, hstall⟩ := accepts_filling hstate haccepts
      by_cases hsame' : accessToSameLine (run rom s₀ inputs (n + 1)) = true
      · refine .here hsame' (by rw [htags, htag, hwb]) ?_
        rw [hready]
        intro h
        cases h
      · apply Serving.elsewhere
        · simp [haccess, hstall, hstrobe, henable]
        · simpa using hsame'
    · rw [if_neg haccepts] at hsave
      refine .here ?_ (by rw [htags, htag, hwb]) ?_
      · simpa only [accessToSameLine, hsave, hline, htags] using hsame
      · intro hready
        rw [hsave]
        by_cases hbefore : (run rom s₀ inputs n).r.iwfready = true
        · -- it stays announced only if nothing was read
          obtain ⟨t, hat, hshown⟩ := hword hbefore
          refine ⟨t, hat.succ hnext, ?_⟩
          rw [run_succ, iwfready_filling rom hstate, hbefore] at hready
          have hread : cacheMemEnable (inputs n) (run rom s₀ inputs n) = false := by
            by_contra hread
            simp only [cacheMemEnable, hstate, Bool.not_eq_false, Bool.and_eq_true] at hread
            simp [hread] at hready
          simpa [shown, hread] using hshown
        · simp only [accessToSameLine, Bool.and_eq_true, beq_iff_eq] at hsame
          exact announced hok hstate hnext hsame.1.symm (by simpa using hbefore) hready

theorem Serving.run (hreset : Reset s₀) (hok : ∀ k < n, Delivers rom s₀ inputs k)
    (hstate : (run rom s₀ inputs n).r.state = .filling) : Serving rom s₀ inputs n := by
  induction n with
  | zero =>
    have hflushing : (Icache.run rom s₀ inputs 0).r.state = .flushing := hreset.state
    rw [hflushing] at hstate
    cases hstate
  | succ n ih =>
    by_cases hbefore : (Icache.run rom s₀ inputs n).r.state = .filling
    · exact (ih (fun k hk => hok k (by omega)) hbefore).step (hok n (by omega)) hbefore hstate
    · exact .start hbefore hstate

/-- A valid word of a fill was answered by it, for the address register. -/
theorem delivered (hreset : Reset s₀) (hok : ∀ k < n, Delivers rom s₀ inputs k)
    (hstate : (run rom s₀ inputs n).r.state = .filling)
    (hvalid : dataValid (inputs n) (run rom s₀ inputs n) = true) :
    ∃ t, AnsweredAt rom s₀ inputs t n (offsetOf (run rom s₀ inputs n).r.saveAddr) ∧
      shown rom s₀ inputs n = some t ∧
      (run rom s₀ inputs n).r.lineSave = lineOf (run rom s₀ inputs n).r.saveAddr ∧
      (run rom s₀ inputs n).r.wbaddr = tagOf (run rom s₀ inputs n).r.saveAddr := by
  simp only [dataValid, hstate, stallInput, fillStall, Bool.and_eq_true, Bool.not_eq_eq_eq_not,
    Bool.not_true, Bool.or_eq_false_iff] at hvalid
  cases Serving.run hreset hok hstate with
  | refused hfault => simp [hfault] at hvalid
  | elsewhere haccess hline => simp [haccess, hline] at hvalid
  | here hsame htag hword =>
    obtain ⟨t, hat, hshown⟩ := hword (by simpa using hvalid.1.1.1.1.2)
    simp only [accessToSameLine, Bool.and_eq_true, beq_iff_eq] at hsame
    exact ⟨t, hat, hshown, hsame.1, htag ▸ hsame.2⟩

end Delivery

/-- In a run from reset whose clocks announce only words that have come, a word that is valid during
a fill is the word of the address that was taken last. -/
theorem filling_delivers (rom : Word → Word) {s₀ : Icache} (inputs : Nat → IcacheInput) (n k : Nat)
    (hreset : Reset s₀) (hok : ∀ j < n, Delivers rom s₀ inputs j)
    (hlast : LastAccepted rom s₀ inputs k n)
    (hstate : (run rom s₀ inputs n).r.state = .filling)
    (hvalid : dataValid (inputs n) (run rom s₀ inputs n) = true) :
    (run rom s₀ inputs n).data = rom (wordOf (inputs k).address) := by
  obtain ⟨t, hat, hshown, hline, htag⟩ := delivered hreset hok hstate hvalid
  obtain ⟨hlt, q, hq, hdata⟩ := shown_word hshown
  have hphase : BusPhase (run rom s₀ inputs t) := .run hreset fun j hj => hok j (by omega)
  have hoffset : q.tag = offsetOf (run rom s₀ inputs n).r.saveAddr := by
    have := hat.2.2
    rw [hq] at this
    exact Option.some.inj this
  have hfilling := hat.2.1 t hlt.le le_rfl
  rw [hdata, hphase.answer_word hfilling hq, ← hat.line.1, ← hat.line.2, hline, htag, hoffset,
    hlast.saveAddr]
  rfl

/-- An access to the first word of a line and the next word behind it; the line memory shows what it
held before a write, and the core does not look in the clocks of `away`. -/
def twoWords (away : Nat → Bool) (k : Nat) : IcacheInput :=
  { IcacheInput.answering true with
    address := if k ≤ 128 then 0x40000000 else 0x40000004
    enable := !away k
    collide := false }

/-- The core is away when the first word comes, and gets it with the second. -/
theorem filling_delivers_late :
    dataValid (twoWords (· == 130) 132) (run addressed reset (twoWords (· == 130)) 132) = true ∧
      (run addressed reset (twoWords (· == 130)) 132).data = addressed (wordOf 0x40000000) :=
  ⟨by decide +kernel, filling_delivers addressed (twoWords (· == 130)) 132 128 reset_reset
    (by decide +kernel) (by decide +kernel) (by decide +kernel) (by decide +kernel)⟩

/-- The first word of a fill is announced when it is written, and what the line held before is
delivered. -/
theorem first_word_stale :
    Reset reset ∧
      (∀ k, (twoWords (fun _ => false) k).seq = true ∧ (twoWords (fun _ => false) k).abort = false ∧
        (twoWords (fun _ => false) k).flush = false ∧
        (twoWords (fun _ => false) k).collide = false) ∧
      LastAccepted addressed reset (twoWords fun _ => false) 128 131 ∧
      (run addressed reset (twoWords fun _ => false) 131).r.state = .filling ∧
      dataValid (twoWords (fun _ => false) 131)
        (run addressed reset (twoWords fun _ => false) 131) = true ∧
      (run addressed reset (twoWords fun _ => false) 131).data ≠ addressed (wordOf 0x40000000) :=
  ⟨reset_reset, fun _ => ⟨rfl, rfl, rfl, rfl⟩, by decide +kernel, by decide +kernel,
    by decide +kernel, by decide +kernel⟩

end Icache

end Xtc
