import Xtc.Cache.IcacheFetch

/-!
# IcacheFill — every valid entry of the instruction cache is true

A fill asks for the sixteen words of a line in a ring, from the one that is wanted first, and counts
the answers.  While it lasts the line is written and its entry is not to be trusted; when the tag is
written, the line holds the words of that tag, as long as no address with another tag was taken in
between, because the tag is taken from the address register and not from the fill.
-/

namespace Xtc

namespace Icache

variable (rom : Word → Word)

def fillRequest (t : Tag) (l : LineId) (first : Offset) (j : Nat) : IcacheRequest :=
  ⟨wordAddress t l (Slave.ring first j), Slave.ring first j⟩

/-- The bus side of a fill that began at `first`, with `taken` requests taken and `acked` of them
answered. -/
structure Burst (s : Icache) (first : Offset) (taken acked : Nat) : Prop where
  tagMemWen : s.r.tagMemWen = false
  cyc : s.r.cyc = true
  order : acked ≤ taken ∧ taken ≤ 16 ∧ acked < 16
  count : s.r.offcntWrite.toNat + acked = 15
  asking : s.r.stb = true →
    s.r.offcnt = Slave.ring first taken ∧ s.r.stbcount.toNat + taken = 15
  asked : s.r.stb = false → taken = 16
  bus : s.bus = Slave.burst (fillRequest s.r.wbaddr s.r.lineSave first) acked taken

/-- A fill whose answers are all in the line of the address register. -/
structure Fill (s : Icache) (first : Offset) (taken acked : Nat) : Prop
    extends Burst s first taken acked where
  tag : tagOf s.r.saveAddr = s.r.wbaddr
  data : ∀ j < acked, s.dataRam s.r.lineSave (Slave.ring first j) =
    rom (wordAddress s.r.wbaddr s.r.lineSave (Slave.ring first j))

inductive Phase (s : Icache) : Prop
  | idle (hstate : s.r.state = .flushing ∨ s.r.state = .running ∧ s.r.tagMemWen = false)
      (hcyc : s.r.state = .running → s.r.cyc = false) (hbus : s.bus = [])
  | filling (first : Offset) (taken acked : Nat) (hstate : s.r.state = .filling)
      (hfill : Fill rom s first taken acked)
  -- the line is complete and its tag is being written
  | ending (hstate : s.r.state = .ending) (hstb : s.r.stb = false) (hbus : s.bus = [])
      (hwen : s.r.tagMemWen = true)
      (hdata : ∀ o, s.dataRam s.r.lineSave o =
        rom (wordAddress (tagOf s.r.saveAddr) s.r.lineSave o))

def InProgress (s : Icache) (l : LineId) : Prop :=
  (s.r.state = .filling ∨ s.r.state = .ending) ∧ s.r.lineSave = l

/-- The line holds the words its tag stands for. -/
def TrueEntry (s : Icache) (l : LineId) : Prop :=
  ∀ o, s.dataRam l o = rom (wordAddress (s.tagRam l).tag l o)

structure Entries (s : Icache) : Prop where
  phase : Phase rom s
  entries : ∀ l, (s.tagRam l).valid = true → ¬ InProgress s l → TrueEntry rom s l

/-- The clocks that keep the entries true: no address of another tag is taken during a fill, and the
bus takes no request during a flush.  There is one if the flush came in the clock of a miss. -/
@[mk_iff] structure FillKept (i : IcacheInput) (s : Icache) : Prop where
  tag : s.r.state = .filling → accepts i s = true → tagOf i.address = s.r.wbaddr
  flush : s.r.state = .flushing → request i s = none

instance (s : Icache) (l : LineId) : Decidable (InProgress s l) :=
  inferInstanceAs (Decidable (_ ∧ _))

instance (i : IcacheInput) (s : Icache) : Decidable (FillKept i s) :=
  decidable_of_iff _ (fillKept_iff ..).symm

section Clock

variable {rom} {i : IcacheInput} {s : Icache}

/-! ### The bus -/

variable (rom) in
theorem answer_idle (hreq : request i s = none) (hbus : s.bus = []) :
    (next i s rom).bus = [] ∧ (next i s rom).dataRam = s.dataRam := by
  have hoffered : offered i s = [] := by simp [offered, hreq, hbus]
  have hanswer : answer i s = none := by simp [answer, hoffered]
  constructor
  · show Slave.rest i.busAck (offered i s) = []
    simp [hoffered]
  · funext l o
    show dataRamNext i s rom l o = _
    simp [dataRamNext, hanswer]

/-- The requests of a fill are taken in the order of the ring. -/
theorem Burst.offered {first : Offset} {taken acked : Nat} (h : Burst s first taken acked) :
    ∃ taken', taken ≤ taken' ∧ taken' ≤ 16 ∧
      Icache.offered i s = Slave.burst (fillRequest s.r.wbaddr s.r.lineSave first) acked taken' ∧
      ((fillingNext i s).stb = true →
        (fillingNext i s).offcnt = Slave.ring first taken' ∧
          (fillingNext i s).stbcount.toNat + taken' = 15) ∧
      ((fillingNext i s).stb = false → taken' = 16) := by
  have horder := h.order
  by_cases hreq : s.r.stb = true ∧ i.busStall = false
  · obtain ⟨hstb, hstall⟩ := hreq
    obtain ⟨hoff, hcount⟩ := h.asking hstb
    refine ⟨taken + 1, by omega, by omega, ?_, ?_, ?_⟩
    · have hrequest : request i s =
          some (fillRequest s.r.wbaddr s.r.lineSave first taken) := by
        simp [request, h.cyc, hstb, hstall, hoff, fillRequest]
      rw [Icache.offered, hrequest, h.bus, Slave.offered_burst _ horder.1]
    · intro hstb'
      have hne : s.r.stbcount ≠ 0#4 := by
        intro h0
        simp [fillingNext, hstall, h0] at hstb'
      have hpos : 0 < s.r.stbcount.toNat := by
        have : s.r.stbcount.toNat ≠ 0 := fun h0 => hne (BitVec.eq_of_toNat_eq h0)
        omega
      have hcount' : (fillingNext i s).stbcount = s.r.stbcount - 1 := by
        simp [fillingNext, hstall, hne]
      have hoff' : (fillingNext i s).offcnt = s.r.offcnt + 1 := by simp [fillingNext, hstall]
      rw [hoff', hcount', hoff, Slave.ring_succ]
      refine ⟨rfl, ?_⟩
      bv_omega
    · intro hstb'
      have h0 : s.r.stbcount = 0#4 := by
        by_contra hne
        simp [fillingNext, hstall, hne, hstb] at hstb'
      have hzero : s.r.stbcount.toNat = 0 := by simp [h0]
      omega
  · refine ⟨taken, le_refl _, horder.2.1, ?_, ?_, ?_⟩
    · have hrequest : request i s = none := by
        cases hstb : s.r.stb <;> cases hstall : i.busStall <;> simp_all [request]
      rw [Icache.offered, hrequest, Slave.offered_none, h.bus]
    · intro hstb'
      have hstb : s.r.stb = true := by
        by_contra hstb
        simp [fillingNext, hstb] at hstb'
      have hstall : i.busStall = true := by simpa [hstb] using hreq
      simpa [fillingNext, hstall] using h.asking hstb
    · intro hstb'
      apply h.asked
      by_contra hstb
      have hstb : s.r.stb = true := by simpa using hstb
      have hstall : i.busStall = true := by simpa [hstb] using hreq
      simp [fillingNext, hstall, hstb] at hstb'

/-! ### The registers of each state -/

structure Started (r : IcacheRegs) : Prop where
  state : r.state = .filling
  tag : tagOf r.saveAddr = r.wbaddr
  offcntWrite : r.offcntWrite = 15
  stbcount : r.stbcount = 15
  cyc : r.cyc = true
  stb : r.stb = true
  tagMemWen : r.tagMemWen = false

structure Settled (r : IcacheRegs) : Prop where
  state : r.state = .flushing ∨ r.state = .running ∧ r.tagMemWen = false
  cyc : r.state = .running → r.cyc = false

theorem Started.burst (h : Started s.r) (hbus : s.bus = []) : Burst s s.r.offcnt 0 0 where
  tagMemWen := h.tagMemWen
  cyc := h.cyc
  order := by omega
  count := by rw [h.offcntWrite]; rfl
  asking := by
    intro _
    rw [h.stbcount]
    exact ⟨(Slave.ring_zero _).symm, rfl⟩
  asked := by
    intro hstb
    rw [h.stb] at hstb
    cases hstb
  bus := by simpa using hbus

theorem Started.fill (h : Started s.r) (hbus : s.bus = []) : Fill rom s s.r.offcnt 0 0 where
  toBurst := h.burst hbus
  tag := h.tag
  data := by
    intro j hj
    omega

theorem Phase.of_regs (h : Settled s.r ∨ Started s.r) (hbus : s.bus = []) : Phase rom s := by
  cases h with
  | inl h => exact .idle h.state h.cyc hbus
  | inr h => exact .filling s.r.offcnt 0 0 h.state (h.fill hbus)

theorem regsNext_flushing (hstate : s.r.state = .flushing) :
    Settled (regsNext i s) ∨ Started (regsNext i s) := by
  have haccepts : accepts i s = false := by simp [accepts, stallInput, hstate]
  have hcase : caseNext i s = flushingNext i s := by simp [caseNext, hstate]
  by_cases hlast : s.r.flushcnt = 0#7
  · by_cases hqueued : s.r.queuedAddress = true ∧ s.r.fault = true
    · right
      constructor <;> simp [regsNext, hcase, haccepts, flushingNext, hlast, hqueued,
        startFillQueued, startFill, defaults]
    · left
      constructor <;> simp [regsNext, hcase, flushingNext, hlast, hqueued, defaults]
  · left
    constructor <;> simp [regsNext, hcase, flushingNext, hlast, defaults, hstate]

theorem regsNext_running (hstate : s.r.state = .running) :
    Settled (regsNext i s) ∨ Started (regsNext i s) := by
  have hcase : caseNext i s = runningNext i s := by simp [caseNext, hstate]
  cases hflush : i.flush with
  | true =>
    -- `cyc` is left up if there was a miss
    left
    constructor <;> simp [regsNext, hcase, runningNext, hflush, startFlush]
  | false =>
    by_cases hmiss : misses i s = true
    · right
      -- the address that missed stays in the register
      have haccepts : accepts i s = false := by simp [accepts, stallInput, hstate, hmiss]
      constructor <;>
        simp [regsNext, haccepts, hcase, runningNext, hmiss, hflush, startFill, defaults]
    · left
      constructor <;> simp [regsNext, hcase, runningNext, hmiss, hflush, defaults, hstate]

theorem regsNext_ending (hstate : s.r.state = .ending) :
    Settled (regsNext i s) ∨ Started (regsNext i s) := by
  have haccepts : accepts i s = false := by simp [accepts, stallInput, hstate]
  have hcase : caseNext i s = endingNext i s := by simp [caseNext, hstate]
  cases hflush : s.r.flush with
  | true =>
    left
    constructor <;> simp [regsNext, hcase, endingNext, hflush, startFlush]
  | false =>
    cases hqueued : s.r.queuedAddress with
    | true =>
      right
      constructor <;> simp [regsNext, hcase, haccepts, endingNext, hflush, hqueued,
        startFillQueued, startFill, defaults]
    | false =>
      left
      constructor <;> simp [regsNext, hcase, endingNext, hflush, hqueued, defaults]

/-! ### One clock -/

theorem TrueEntry.next {l : LineId} (h : TrueEntry rom s l)
    (hdata : (next i s rom).dataRam l = s.dataRam l) (htag : tagRamNext s l = s.tagRam l) :
    TrueEntry rom (next i s rom) l := by
  intro o
  show _ = rom (wordAddress (tagRamNext s l).tag l o)
  rw [hdata, htag]
  exact h o

theorem tagRamNext_of_wen (h : s.r.tagMemWen = false) : tagRamNext s = s.tagRam := by
  funext l
  simp [tagRamNext, h]

theorem Entries.next_flushing (h : Entries rom s) (hstate : s.r.state = .flushing)
    (hreq : request i s = none) (hbus : s.bus = []) : Entries rom (next i s rom) := by
  obtain ⟨hbus', hdata⟩ := answer_idle rom hreq hbus
  constructor
  · exact .of_regs (regsNext_flushing hstate) hbus'
  · intro l hvalid _
    have hvalid : (tagRamNext s l).valid = true := hvalid
    -- an entry that is still valid was not the one written
    have hsame : tagRamNext s l = s.tagRam l := by
      unfold tagRamNext at hvalid ⊢
      split_ifs at hvalid ⊢
      · simp [tagMemData, hstate] at hvalid
      · rfl
    rw [hsame] at hvalid
    exact (h.entries l hvalid (by simp [InProgress, hstate])).next (congrFun hdata l) hsame

theorem Entries.next_running (h : Entries rom s) (hstate : s.r.state = .running)
    (hwen : s.r.tagMemWen = false) (hcyc : s.r.cyc = false) (hbus : s.bus = []) :
    Entries rom (next i s rom) := by
  have hreq : request i s = none := by simp [request, hcyc]
  obtain ⟨hbus', hdata⟩ := answer_idle rom hreq hbus
  have htag := tagRamNext_of_wen hwen
  constructor
  · exact .of_regs (regsNext_running hstate) hbus'
  · intro l hvalid _
    have hvalid : (tagRamNext s l).valid = true := hvalid
    rw [htag] at hvalid
    have hprogress : ¬ InProgress s l := by simp [InProgress, hstate]
    exact (h.entries l hvalid hprogress).next (congrFun hdata l) (congrFun htag l)

theorem Entries.next_ending (h : Entries rom s) (hstate : s.r.state = .ending)
    (hstb : s.r.stb = false) (hbus : s.bus = []) (hwen : s.r.tagMemWen = true)
    (hline : ∀ o, s.dataRam s.r.lineSave o =
      rom (wordAddress (tagOf s.r.saveAddr) s.r.lineSave o)) : Entries rom (next i s rom) := by
  have hreq : request i s = none := by simp [request, hstb]
  obtain ⟨hbus', hdata⟩ := answer_idle rom hreq hbus
  have haddr : tagMemAddr s = s.r.lineSave := by simp [tagMemAddr, hstate]
  constructor
  · exact .of_regs (regsNext_ending hstate) hbus'
  · intro l hvalid _
    by_cases hl : l = s.r.lineSave
    · -- the line that was filled gets its entry
      have htag : tagRamNext s l = tagMemData s := by simp [tagRamNext, hwen, haddr, hl]
      intro o
      show _ = rom (wordAddress (tagRamNext s l).tag l o)
      rw [hdata, htag, hl]
      exact hline o
    · have htag : tagRamNext s l = s.tagRam l := by simp [tagRamNext, haddr, hl]
      have hvalid : (tagRamNext s l).valid = true := hvalid
      rw [htag] at hvalid
      have hprogress : ¬ InProgress s l := fun hp => hl hp.2.symm
      exact (h.entries l hvalid hprogress).next (congrFun hdata l) htag

/-! ### A clock of a fill -/

section Filling

variable {first : Offset} {taken acked : Nat}

theorem regsNext_filling (hstate : s.r.state = .filling) :
    regsNext i s = { fillingNext i s with
      saveAddr := (regsNext i s).saveAddr
      accessQ := (regsNext i s).accessQ
      queuedAddress := (regsNext i s).queuedAddress
      enableQ := i.enable } := by
  have hcase : caseNext i s = fillingNext i s := by simp [caseNext, hstate]
  simp [regsNext, hcase, hstate]

theorem Fill.tag_next (h : Fill rom s first taken acked) (hstate : s.r.state = .filling)
    (hok : FillKept i s) : tagOf (regsNext i s).saveAddr = s.r.wbaddr := by
  have hcase : caseNext i s = fillingNext i s := by simp [caseNext, hstate]
  have hsave : (regsNext i s).saveAddr = if accepts i s then i.address else s.r.saveAddr := by
    simp [regsNext, hcase, fillingNext, defaults]
  rw [hsave]
  split_ifs with haccepts
  · exact hok.tag hstate haccepts
  · exact h.tag

variable (rom) in
theorem next_lineSave (hstate : s.r.state = .filling) :
    (next i s rom).r.lineSave = s.r.lineSave := by
  show (regsNext i s).lineSave = _
  rw [regsNext_filling hstate]
  rfl

variable (rom) in
theorem next_wbaddr (hstate : s.r.state = .filling) : (next i s rom).r.wbaddr = s.r.wbaddr := by
  show (regsNext i s).wbaddr = _
  rw [regsNext_filling hstate]
  rfl

variable (rom) in
theorem next_state (hstate : s.r.state = .filling) :
    (next i s rom).r.state = (fillingNext i s).state := by
  show (regsNext i s).state = _
  rw [regsNext_filling hstate]

/-- An answer is the next word of the ring. -/
theorem Burst.answer (h : Burst s first taken acked) {q : IcacheRequest}
    (hanswer : Icache.answer i s = some q) :
    q = fillRequest s.r.wbaddr s.r.lineSave first acked := by
  obtain ⟨taken', -, -, hoffered, -⟩ := h.offered (i := i)
  rw [Icache.answer, hoffered] at hanswer
  exact (Slave.answer_burst hanswer).2.1

/-- What the next clock of a fill has when it goes on. -/
theorem Burst.next (hstate : s.r.state = .filling) {taken' acked' : Nat}
    (horder : acked' ≤ taken' ∧ taken' ≤ 16 ∧ acked' < 16)
    (hwen : (fillingNext i s).tagMemWen = false)
    (hcount : (fillingNext i s).offcntWrite.toNat + acked' = 15)
    (hasking : (fillingNext i s).stb = true →
      (fillingNext i s).offcnt = Slave.ring first taken' ∧
        (fillingNext i s).stbcount.toNat + taken' = 15)
    (hasked : (fillingNext i s).stb = false → taken' = 16)
    (hbus : Slave.rest i.busAck (Icache.offered i s) =
      Slave.burst (fillRequest s.r.wbaddr s.r.lineSave first) acked' taken') :
    Burst (Icache.next i s rom) first taken' acked' := by
  have hregs := regsNext_filling (i := i) hstate
  constructor
  case tagMemWen => show (regsNext i s).tagMemWen = _; rw [hregs]; exact hwen
  case cyc => show (regsNext i s).cyc = _; rw [hregs]; rfl
  case order => exact horder
  case count => show (regsNext i s).offcntWrite.toNat + _ = _; rw [hregs]; exact hcount
  case asking =>
    show (regsNext i s).stb = _ → (regsNext i s).offcnt = _ ∧ (regsNext i s).stbcount.toNat + _ = _
    rw [hregs]
    exact hasking
  case asked => show (regsNext i s).stb = _ → _; rw [hregs]; exact hasked
  case bus => rw [next_wbaddr rom hstate, next_lineSave rom hstate]; exact hbus

variable (rom) in
theorem Burst.waits (h : Burst s first taken acked) (hstate : s.r.state = .filling)
    (hanswer : Icache.answer i s = none) :
    (Icache.next i s rom).r.state = .filling ∧
      ∃ taken', Burst (Icache.next i s rom) first taken' acked := by
  obtain ⟨taken', hle, hle16, hoffered, hasking, hasked⟩ := h.offered (i := i)
  have horder := h.order
  constructor
  · rw [next_state rom hstate]
    simp [fillingNext, hanswer, hstate]
  · refine ⟨taken', Burst.next hstate (by omega) ?_ ?_ hasking hasked ?_⟩
    · simp [fillingNext, hanswer]
    · simpa [fillingNext, hanswer] using h.count
    · rw [Slave.rest_of_answer_none hanswer, hoffered]

variable (rom) in
theorem Burst.advances (h : Burst s first taken acked) (hstate : s.r.state = .filling)
    (hanswer : (Icache.answer i s).isSome = true) (hmore : s.r.offcntWrite ≠ 0#4) :
    (Icache.next i s rom).r.state = .filling ∧
      ∃ taken', Burst (Icache.next i s rom) first taken' (acked + 1) := by
  obtain ⟨q, hq⟩ := Option.isSome_iff_exists.mp hanswer
  obtain ⟨taken', hle, hle16, hoffered, hasking, hasked⟩ := h.offered (i := i)
  have hburst := hq
  rw [Icache.answer, hoffered] at hburst
  obtain ⟨hlt, -, hrest⟩ := Slave.answer_burst hburst
  have hcount := h.count
  have hpos : s.r.offcntWrite.toNat ≠ 0 := fun h0 => hmore (BitVec.eq_of_toNat_eq h0)
  constructor
  · rw [next_state rom hstate]
    simp [fillingNext, hq, hmore, hstate]
  · refine ⟨taken', Burst.next hstate (by omega) ?_ ?_ hasking hasked ?_⟩
    · simp [fillingNext, hq, hmore]
    · have hwrite : (fillingNext i s).offcntWrite = s.r.offcntWrite - 1 := by
        simp [fillingNext, hq]
      rw [hwrite]
      bv_omega
    · rw [hoffered, hrest]

variable (rom) in
/-- The sixteenth answer: every request was taken before it. -/
theorem Burst.ends (h : Burst s first taken acked) (hstate : s.r.state = .filling)
    (hanswer : (Icache.answer i s).isSome = true) (hlast : s.r.offcntWrite = 0#4) :
    acked = 15 ∧ (Icache.next i s rom).r.state = .ending ∧
      (Icache.next i s rom).r.stb = false ∧ (Icache.next i s rom).bus = [] ∧
      (Icache.next i s rom).r.tagMemWen = true := by
  obtain ⟨q, hq⟩ := Option.isSome_iff_exists.mp hanswer
  obtain ⟨taken', hle, hle16, hoffered, hasking, hasked⟩ := h.offered (i := i)
  have hburst := hq
  rw [Icache.answer, hoffered] at hburst
  obtain ⟨hlt, -, hrest⟩ := Slave.answer_burst hburst
  have hregs := regsNext_filling (i := i) hstate
  have hcount := h.count
  have hacked : acked = 15 := by simp [hlast] at hcount; omega
  have htaken : taken' = 16 := by omega
  refine ⟨hacked, ?_, ?_, ?_, ?_⟩
  · rw [next_state rom hstate]
    simp [fillingNext, hq, hlast]
  · show (regsNext i s).stb = false
    rw [hregs]
    by_contra hstb
    have := (hasking (by simpa using hstb)).2
    omega
  · show Slave.rest i.busAck (Icache.offered i s) = []
    rw [hoffered, hrest, htaken, hacked, Slave.burst_self]
  · show (regsNext i s).tagMemWen = true
    rw [hregs]
    simp [fillingNext, hq, hlast]

theorem Fill.data_waits (h : Fill rom s first taken acked) (hanswer : answer i s = none) :
    ∀ j < acked, dataRamNext i s rom s.r.lineSave (Slave.ring first j) =
      rom (wordAddress s.r.wbaddr s.r.lineSave (Slave.ring first j)) := by
  intro j hj
  simpa [dataRamNext, hanswer] using h.data j hj

theorem Fill.data_advances (h : Fill rom s first taken acked)
    (hanswer : (answer i s).isSome = true) :
    ∀ j < acked + 1, dataRamNext i s rom s.r.lineSave (Slave.ring first j) =
      rom (wordAddress s.r.wbaddr s.r.lineSave (Slave.ring first j)) := by
  intro j hj
  obtain ⟨q, hq⟩ := Option.isSome_iff_exists.mp hanswer
  simp only [dataRamNext, hq, true_and, h.answer hq, fillRequest]
  split_ifs with htag
  · rw [htag]
  · have hne : j ≠ acked := fun heq => htag (by rw [heq])
    exact h.data j (by omega)

theorem Fill.next (h : Fill rom s first taken acked) (hstate : s.r.state = .filling)
    (hok : FillKept i s) {taken' acked' : Nat}
    (hburst : Burst (Icache.next i s rom) first taken' acked')
    (hdata : ∀ j < acked', dataRamNext i s rom s.r.lineSave (Slave.ring first j) =
      rom (wordAddress s.r.wbaddr s.r.lineSave (Slave.ring first j))) :
    Fill rom (Icache.next i s rom) first taken' acked' where
  toBurst := hburst
  tag := by rw [next_wbaddr rom hstate]; exact h.tag_next hstate hok
  data := by rw [next_wbaddr rom hstate, next_lineSave rom hstate]; exact hdata

theorem Fill.phase_next (h : Fill rom s first taken acked) (hstate : s.r.state = .filling)
    (hok : FillKept i s) : Phase rom (Icache.next i s rom) := by
  cases hanswer : (answer i s).isSome with
  | false =>
    have hnone : answer i s = none := Option.not_isSome_iff_eq_none.mp (by simp [hanswer])
    obtain ⟨hstate', taken', hburst⟩ := h.waits rom hstate hnone
    exact .filling first taken' acked hstate' (h.next hstate hok hburst (h.data_waits hnone))
  | true =>
    by_cases hlast : s.r.offcntWrite = 0#4
    · obtain ⟨hacked, hstate', hstb, hbus, hwen⟩ := h.ends rom hstate hanswer hlast
      refine .ending hstate' hstb hbus hwen ?_
      intro o
      obtain ⟨j, hj, rfl⟩ := Slave.exists_ring first o
      rw [next_lineSave rom hstate]
      show _ = rom (wordAddress (tagOf (regsNext i s).saveAddr) _ _)
      rw [h.tag_next hstate hok]
      exact h.data_advances hanswer j (by omega)
    · obtain ⟨hstate', taken', hburst⟩ := h.advances rom hstate hanswer hlast
      exact .filling first taken' (acked + 1) hstate'
        (h.next hstate hok hburst (h.data_advances hanswer))

theorem Entries.next_filling (h : Entries rom s) (hok : FillKept i s)
    (hstate : s.r.state = .filling) (hfill : Fill rom s first taken acked) :
    Entries rom (Icache.next i s rom) := by
  constructor
  · exact hfill.phase_next hstate hok
  · intro l hvalid hprogress
    have hregs := regsNext_filling (i := i) hstate
    -- the fill goes on or is ending, so `l` is another line
    have hl : l ≠ s.r.lineSave := by
      rintro rfl
      apply hprogress
      show ((regsNext i s).state = _ ∨ (regsNext i s).state = _) ∧ (regsNext i s).lineSave = _
      rw [hregs]
      refine ⟨?_, rfl⟩
      simp only [fillingNext, hstate]
      split_ifs <;> simp
    have htag := tagRamNext_of_wen hfill.tagMemWen
    have hvalid : (tagRamNext s l).valid = true := hvalid
    rw [htag] at hvalid
    have hdata : dataRamNext i s rom l = s.dataRam l := by
      funext o
      unfold dataRamNext
      split <;> simp [hl]
    exact (h.entries l hvalid fun hp => hl hp.2.symm).next hdata (congrFun htag l)

end Filling

theorem Entries.next (h : Entries rom s) (hok : FillKept i s) : Entries rom (next i s rom) := by
  cases h.phase with
  | idle hstate hcyc hbus =>
    cases hstate with
    | inl hstate => exact h.next_flushing hstate (hok.flush hstate) hbus
    | inr hstate => exact h.next_running hstate.1 hstate.2 (hcyc hstate.1) hbus
  | filling first taken acked hstate hfill => exact h.next_filling hok hstate hfill
  | ending hstate hstb hbus hwen hline => exact h.next_ending hstate hstb hbus hwen hline

end Clock

/-! ## The flush after reset -/

section Flush

variable {rom}

/-- After `n` clocks the upper `n` entries are cleared. -/
structure Clearing (s₀ s : Icache) (n : Nat) : Prop where
  state : s.r.state = .flushing
  flushcnt : s.r.flushcnt.toNat + n = 127
  tagMemWen : s.r.tagMemWen = true
  cyc : s.r.cyc = false
  queued : s.r.queuedAddress = false
  bus : s.bus = []
  cleared : ∀ l, 128 ≤ n + l.toNat ∨ (s₀.tagRam l).valid = false → (s.tagRam l).valid = false

theorem Reset.clearing {s₀ : Icache} (h : Reset s₀) : Clearing s₀ s₀ 0 where
  state := h.state
  flushcnt := by rw [h.flushcnt]; rfl
  tagMemWen := h.tagMemWen
  cyc := h.cyc
  queued := h.queuedAddress
  bus := h.bus
  cleared := by
    rintro l (hl | hl)
    · have := l.isLt
      omega
    · exact hl

theorem Clearing.cleared_next {s₀ s : Icache} {n : Nat} (h : Clearing s₀ s n) (l : LineId)
    (hl : 128 ≤ n + 1 + l.toNat ∨ (s₀.tagRam l).valid = false) :
    (tagRamNext s l).valid = false := by
  have haddr : tagMemAddr s = s.r.flushcnt := by simp [tagMemAddr, h.state]
  by_cases hcnt : l = s.r.flushcnt
  · simp [tagRamNext, h.tagMemWen, haddr, hcnt, tagMemData, h.state]
  · have hne : l.toNat ≠ s.r.flushcnt.toNat := fun heq => hcnt (BitVec.eq_of_toNat_eq heq)
    have hcount := h.flushcnt
    have hold : (s.tagRam l).valid = false := h.cleared l (hl.imp_left fun _ => by omega)
    simp [tagRamNext, haddr, hcnt, hold]

theorem Clearing.next {s₀ s : Icache} {n : Nat} (h : Clearing s₀ s n) (hn : n < 127)
    (i : IcacheInput) : Clearing s₀ (Icache.next i s rom) (n + 1) := by
  have hreq : request i s = none := by simp [request, h.cyc]
  have hcount := h.flushcnt
  have hlast : s.r.flushcnt ≠ 0#7 := by
    intro h0
    simp [h0] at hcount
    omega
  have hcase : caseNext i s = flushingNext i s := by simp [caseNext, h.state]
  constructor
  case state => simp [Icache.next, regsNext, hcase, flushingNext, hlast, defaults, h.state]
  case flushcnt =>
    have : (Icache.next i s rom).r.flushcnt = s.r.flushcnt - 1 := by
      simp [Icache.next, regsNext, hcase, flushingNext, hlast]
    rw [this]
    bv_omega
  case tagMemWen => simp [Icache.next, regsNext, hcase, flushingNext, hlast]
  case cyc => simp [Icache.next, regsNext, hcase, flushingNext, hlast, defaults]
  case queued => simp [Icache.next, regsNext, hcase, flushingNext, hlast, defaults, h.queued]
  case bus => exact (answer_idle rom hreq h.bus).1
  case cleared => exact h.cleared_next

/-- The last entry is cleared and the cache runs. -/
theorem Clearing.done {s₀ s : Icache} (h : Clearing s₀ s 127) (i : IcacheInput) :
    Entries rom (Icache.next i s rom) := by
  have hreq : request i s = none := by simp [request, h.cyc]
  have hcount := h.flushcnt
  constructor
  · exact .of_regs (regsNext_flushing h.state) (answer_idle rom hreq h.bus).1
  · intro l hvalid _
    have hinvalid := h.cleared_next l (.inl (by omega))
    have hvalid : (tagRamNext s l).valid = true := hvalid
    rw [hinvalid] at hvalid
    cases hvalid

theorem Reset.clearing_run {s₀ : Icache} (h : Reset s₀) (inputs : Nat → IcacheInput) (n : Nat)
    (hn : n < 128) : Clearing s₀ (run rom s₀ inputs n) n := by
  induction n with
  | zero => exact h.clearing
  | succ n ih => exact (ih (by omega)).next (by omega) _

theorem Reset.entries_run {s₀ : Icache} (h : Reset s₀) (inputs : Nat → IcacheInput) :
    Entries rom (run rom s₀ inputs (127 + 1)) := by
  rw [run, Run.states_succ]
  exact (h.clearing_run inputs 127 (by omega)).done (inputs 127)

end Flush

/-- In a run from reset whose clocks keep the fills, a valid entry of a line that is not being
filled is true. -/
theorem valid_entries_true {s₀ : Icache} (inputs : Nat → IcacheInput) (n : Nat) (l : LineId)
    (hreset : Reset s₀) (hok : ∀ k < n, FillKept (inputs k) (run rom s₀ inputs k))
    -- the flush after reset has passed the line, or found nothing there
    (hcleared : 128 ≤ n + l.toNat ∨ (s₀.tagRam l).valid = false)
    (hvalid : ((run rom s₀ inputs n).tagRam l).valid = true)
    (hprogress : ¬ InProgress (run rom s₀ inputs n) l) : TrueEntry rom (run rom s₀ inputs n) l := by
  by_cases hn : n < 128
  · have hinvalid : ((run rom s₀ inputs n).tagRam l).valid = false :=
      (hreset.clearing_run inputs n hn).cleared l hcleared
    rw [hinvalid] at hvalid
    cases hvalid
  · obtain ⟨m, rfl⟩ : ∃ m, n = 128 + m := ⟨n - 128, by omega⟩
    have hstart : Entries rom (run rom s₀ inputs 128) := hreset.entries_run inputs
    have hsplit := Run.states_add (fun i s => next i s rom) s₀ inputs 128
    have hentries : Entries rom (run rom s₀ inputs (128 + m)) := by
      rw [run, hsplit]
      refine Run.invariant (Entries rom) FillKept hstart (fun i s hok h => h.next hok) m ?_
      intro k hk
      rw [← hsplit]
      exact hok (128 + k) (by omega)
    exact hentries.entries l hvalid hprogress

/-- One fetch after the flush, and then the fill it causes. -/
def oneFetch (k : Nat) : IcacheInput := .answering (decide (k ≤ 128))

def addressed (a : Word) : Word := a ^^^ 0x80000000

theorem valid_entries_true_fetch :
    ((run addressed reset oneFetch 147).tagRam 0).valid = true ∧
      TrueEntry addressed (run addressed reset oneFetch 147) 0 :=
  ⟨by decide +kernel, valid_entries_true addressed oneFetch 147 0 reset_reset (by decide +kernel)
    (by decide) (by decide +kernel) (by decide +kernel)⟩

/-- A jump to the last word of a line, with the next tag behind it. -/
def lastWord (k : Nat) : FrontInput where
  freeze := false
  jump := k == 129
  jumppriv := true
  jumpaddr := 0x40001FFC
  cache := .answering true

def front (n : Nat) : Front := Front.run addressed ⟨Fetch.reset, reset⟩ lastWord n

/-- The fill of `0x40001FC0` ends after `0x40002000` was taken, and gets its tag. -/
theorem filled_with_next_tag :
    Reset reset ∧
      (∀ k, Front.Wired (Front.fetchIn (lastWord k) (front k))
        (Front.cacheIn (lastWord k) (front k)) (front k)) ∧
      ((front 149).cache.tagRam 127).valid = true ∧ ¬ InProgress (front 149).cache 127 ∧
      ¬ TrueEntry addressed (front 149).cache 127 := by
  refine ⟨reset_reset, ?_, by decide +kernel, by decide +kernel, ?_⟩
  · apply Front.run_wired
    intro hrunning
    cases hrunning
  · intro htrue
    exact absurd (htrue 0) (by decide +kernel)

end Icache

end Xtc
