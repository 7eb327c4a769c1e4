import Xtc.Cache.DcacheTransparent

/-!
# DcacheFlush — a flush goes through the lines

The scan clears the line `flush_line_number` in the clock in which it reads its old entry, and looks
at that entry one clock later, when the line is in `fill_line_number`.  A dirty line interrupts it:
the entry of the next line is read but not cleared, and read again after the write-back.  So there
are three kinds of clocks for a line `c`: its entry is about to be read, or is looked at, or the
line is being written back.
-/

namespace Xtc

namespace Dcache

open WriteBack (Entry)

variable {t l : Nat}

/-! ## What a flush has to write back -/

section Dirty

variable (tags : BitVec l → Entry (BitVec t))

/-- The number and the tag of line `j`, if it is valid and dirty. -/
def dirtyLine (j : Nat) : Option (BitVec l × BitVec t) :=
  let e := tags (BitVec.ofNat l j)
  if e.valid && e.dirty then some (BitVec.ofNat l j, e.tag) else none

def dirtyFrom (c : Nat) : List (BitVec l × BitVec t) :=
  (List.range' c (2 ^ l - c)).filterMap (dirtyLine tags)

def dirtyLines : List (BitVec l × BitVec t) := dirtyFrom tags 0

theorem dirtyFrom_end : dirtyFrom tags (2 ^ l) = [] := by
  rw [dirtyFrom, Nat.sub_self]
  rfl

theorem dirtyFrom_cons {c : Nat} (hc : c < 2 ^ l) :
    dirtyFrom tags c = (dirtyLine tags c).toList ++ dirtyFrom tags (c + 1) := by
  have hlen : 2 ^ l - c = 2 ^ l - (c + 1) + 1 := by omega
  rw [dirtyFrom, dirtyFrom, hlen, List.range'_succ, List.filterMap_cons]
  cases dirtyLine tags c <;> rfl

end Dirty

/-- A clock after which the cache is in `writeback` and was not before. -/
def enters (i : DcacheInput t l) (s : Dcache t l) : Option (BitVec l × BitVec t) :=
  if s.r.state ≠ .writeback ∧ (next i s).r.state = .writeback then
    some ((next i s).r.fillLineNumber, (next i s).r.writebackTag)
  else none

theorem enters_eq_none {i : DcacheInput t l} {s : Dcache t l}
    (h : s.r.state = .writeback ∨ (next i s).r.state ≠ .writeback) : enters i s = none := by
  unfold enters
  rw [if_neg]
  rintro ⟨hne, heq⟩
  exact h.elim hne (absurd heq)

/-! ## The scan -/

structure Cleared (tags : BitVec l → Entry (BitVec t)) (s : Dcache t l) (c : Nat) : Prop where
  below : ∀ k : BitVec l, k.toNat < c → (s.tmem k).valid = false
  above : ∀ k : BitVec l, c ≤ k.toNat → s.tmem k = tags k

/-- Line `c` is about to be read; at the end of the scan there is none. -/
structure Starting (tags : BitVec l → Entry (BitVec t)) (s : Dcache t l) (c : Nat) : Prop where
  state : s.r.state = .flush
  inFlush : s.r.inFlush = false
  le : c ≤ 2 ^ l
  flushLine : s.r.flushLineNumber = BitVec.ofNat l c
  fillLine : s.r.fillLineNumber = BitVec.ofNat l (c - 1)
  cleared : Cleared tags s c

/-- The old entry of line `c` is at the output of the tag memory. -/
structure Examining (tags : BitVec l → Entry (BitVec t)) (s : Dcache t l) (c : Nat) : Prop where
  state : s.r.state = .flush
  inFlush : s.r.inFlush = true
  lt : c < 2 ^ l
  flushLine : s.r.flushLineNumber = BitVec.ofNat l (c + 1)
  fillLine : s.r.fillLineNumber = BitVec.ofNat l c
  entry : s.tmemDob = tags (BitVec.ofNat l c)
  cleared : Cleared tags s (c + 1)

structure Saving (tags : BitVec l → Entry (BitVec t)) (s : Dcache t l) (c : Nat) : Prop where
  inFlush : s.r.inFlush = true
  lt : c < 2 ^ l
  flushLine : s.r.flushLineNumber = BitVec.ofNat l (c + 1)
  fillLine : s.r.fillLineNumber = BitVec.ofNat l c
  dirty : dirtyLine tags c = some (BitVec.ofNat l c, s.r.writebackTag)
  cleared : Cleared tags s (c + 1)

structure Flushed (s : Dcache t l) : Prop where
  state : s.r.state = .idle
  cleared : ∀ k, (s.tmem k).valid = false

section Clocks

variable {i : DcacheInput t l} {s : Dcache t l} {tags : BitVec l → Entry (BitVec t)} {c : Nat}

theorem ofNat_eq_allOnes {j : Nat} (hj : j < 2 ^ l) :
    BitVec.ofNat l j = BitVec.allOnes l ↔ j + 1 = 2 ^ l := by
  rw [← BitVec.toNat_inj, BitVec.toNat_ofNat, BitVec.toNat_allOnes, Nat.mod_eq_of_lt hj]
  omega

theorem Cleared.of_tmem {s' : Dcache t l} (h : Cleared tags s c) (htmem : s'.tmem = s.tmem) :
    Cleared tags s' c := by
  constructor
  · rw [htmem]
    exact h.below
  · rw [htmem]
    exact h.above

theorem Cleared.clears (h : Cleared tags s c) (hstate : s.r.state = .flush)
    (hclean : victimDirty s = false) (hline : s.r.flushLineNumber = BitVec.ofNat l c)
    (hc : c < 2 ^ l) : Cleared tags (next i s) (c + 1) := by
  have hnat : s.r.flushLineNumber.toNat = c := by
    rw [hline, BitVec.toNat_ofNat, Nat.mod_eq_of_lt hc]
  constructor
  · intro k hk
    rw [tmem_next_clears hstate hclean]
    by_cases heq : k = s.r.flushLineNumber
    · rw [heq, Function.update_self]
    · have hne : k.toNat ≠ c := fun h' => heq (BitVec.eq_of_toNat_eq (h'.trans hnat.symm))
      rw [Function.update_of_ne heq]
      exact h.below k (by omega)
  · intro k hk
    have hne : k ≠ s.r.flushLineNumber := by
      rintro rfl
      omega
    rw [tmem_next_clears hstate hclean, Function.update_of_ne hne]
    exact h.above k (by omega)

/-- With all lines cleared the last clock clears one of them again. -/
theorem Cleared.again (h : Cleared tags s (2 ^ l)) (hstate : s.r.state = .flush)
    (hclean : victimDirty s = false) (k : BitVec l) : ((next i s).tmem k).valid = false := by
  rw [tmem_next_clears hstate hclean]
  by_cases heq : k = s.r.flushLineNumber
  · rw [heq, Function.update_self]
  · rw [Function.update_of_ne heq]
    exact h.below k k.isLt

theorem tmemDob_next_flush (hstate : s.r.state = .flush) :
    (next i s).tmemDob = s.tmem s.r.flushLineNumber := by
  simp [next, Ram.Port.read, tmemB, hstate]

theorem Cleared.entry (h : Cleared tags s c) (hstate : s.r.state = .flush)
    (hline : s.r.flushLineNumber = BitVec.ofNat l c) (hc : c < 2 ^ l) :
    (next i s).tmemDob = tags (BitVec.ofNat l c) := by
  rw [tmemDob_next_flush hstate, hline]
  apply h.above
  rw [BitVec.toNat_ofNat, Nat.mod_eq_of_lt hc]

theorem Starting.step (hl : 0 < l) (h : Starting tags s c) (hc : c < 2 ^ l) :
    Examining tags (next i s) c := by
  have hclean : victimDirty s = false := by simp [victimDirty, h.inFlush]
  have hpow : 2 ≤ 2 ^ l := Nat.le_self_pow (by omega) 2
  have hmore : s.r.fillLineNumber ≠ BitVec.allOnes l := by
    rw [h.fillLine, Ne, ofNat_eq_allOnes (by omega)]
    omega
  cases flushStep (i := i) h.state with
  | victim hdirty => rw [hclean] at hdirty; cases hdirty
  | ends _ hlast => exact absurd hlast hmore
  | clears _ _ hstate' hlines hin _ =>
    constructor
    case state => exact hstate'
    case inFlush => exact hin
    case lt => exact hc
    case flushLine => rw [hlines.2, h.flushLine, BitVec.ofNat_add]; rfl
    case fillLine => rw [hlines.1, h.flushLine]
    case entry => exact h.cleared.entry h.state h.flushLine hc
    case cleared => exact h.cleared.clears h.state hclean h.flushLine hc

/-- The last line was dirty, and the scan ends without looking at another one. -/
theorem Starting.last (h : Starting tags s (2 ^ l)) : Flushed (next i s) := by
  have hclean : victimDirty s = false := by simp [victimDirty, h.inFlush]
  have hpos : 0 < 2 ^ l := Nat.two_pow_pos l
  have hall : s.r.fillLineNumber = BitVec.allOnes l := by
    rw [h.fillLine, ofNat_eq_allOnes (by omega)]
    omega
  cases flushStep (i := i) h.state with
  | victim hdirty => rw [hclean] at hdirty; cases hdirty
  | clears _ hmore => exact absurd hall hmore
  | ends _ _ hstate' => exact ⟨hstate', h.cleared.again h.state hclean⟩

theorem Examining.dirtyLine_eq (h : Examining tags s c) : dirtyLine tags c =
    if victimDirty s then some (BitVec.ofNat l c, s.tmemDob.tag) else none := by
  rw [dirtyLine, victimDirty, h.inFlush, Bool.true_and, h.entry]

theorem Examining.step_dirty (h : Examining tags s c) (hdirty : victimDirty s = true) :
    Saving tags (next i s) c ∧ (next i s).r.state = .preparewb := by
  cases flushStep (i := i) h.state with
  | clears hclean => rw [hclean] at hdirty; cases hdirty
  | ends hclean => rw [hclean] at hdirty; cases hdirty
  | victim _ hstate' htag hlines _ _ hin =>
    refine ⟨?_, hstate'⟩
    constructor
    case inFlush => exact hin
    case lt => exact h.lt
    case flushLine => rw [hlines.2, h.flushLine]
    case fillLine => rw [hlines.1, h.fillLine]
    case dirty => rw [h.dirtyLine_eq, if_pos hdirty, htag]
    case cleared => exact h.cleared.of_tmem (tmem_next_victim h.state hdirty)

theorem Examining.step_clean (h : Examining tags s c) (hclean : victimDirty s = false)
    (hc : c + 1 < 2 ^ l) : Examining tags (next i s) (c + 1) := by
  have hmore : s.r.fillLineNumber ≠ BitVec.allOnes l := by
    rw [h.fillLine, Ne, ofNat_eq_allOnes h.lt]
    omega
  cases flushStep (i := i) h.state with
  | victim hdirty => rw [hclean] at hdirty; cases hdirty
  | ends _ hlast => exact absurd hlast hmore
  | clears _ _ hstate' hlines hin _ =>
    constructor
    case state => exact hstate'
    case inFlush => exact hin
    case lt => exact hc
    case flushLine => rw [hlines.2, h.flushLine, BitVec.ofNat_add (c + 1)]; rfl
    case fillLine => rw [hlines.1, h.flushLine]
    case entry => exact h.cleared.entry h.state h.flushLine hc
    case cleared => exact h.cleared.clears h.state hclean h.flushLine hc

theorem Examining.last (h : Examining tags s c) (hclean : victimDirty s = false)
    (hc : c + 1 = 2 ^ l) : Flushed (next i s) := by
  have hall : s.r.fillLineNumber = BitVec.allOnes l := by
    rw [h.fillLine, ofNat_eq_allOnes h.lt]
    exact hc
  cases flushStep (i := i) h.state with
  | victim hdirty => rw [hclean] at hdirty; cases hdirty
  | clears _ hmore => exact absurd hall hmore
  | ends _ _ hstate' => exact ⟨hstate', (hc ▸ h.cleared).again h.state hclean⟩

theorem Saving.prepare (h : Saving tags s c) (hstate : s.r.state = .preparewb) :
    Saving tags (next i s) c ∧ (next i s).r.state = .writeback ∧
      enters i s = dirtyLine tags c := by
  have hr := r_next_preparewb (i := i) hstate
  have hstate' : (next i s).r.state = .writeback := by rw [hr]
  have hsaving : Saving tags (next i s) c := by
    constructor
    case inFlush => rw [hr]; exact h.inFlush
    case lt => exact h.lt
    case flushLine => rw [hr]; exact h.flushLine
    case fillLine => rw [hr]; exact h.fillLine
    case dirty => rw [hr]; exact h.dirty
    case cleared =>
      apply h.cleared.of_tmem
      apply tmem_next_busy <;> simp [hstate]
  refine ⟨hsaving, hstate', ?_⟩
  rw [enters, if_pos ⟨by simp [hstate], hstate'⟩, hsaving.dirty, hsaving.fillLine]

theorem Saving.waits (h : Saving tags s c) (hstate : s.r.state = .writeback)
    (hends : writebackEnds i s = false) :
    Saving tags (next i s) c ∧ (next i s).r.state = .writeback := by
  have hr := r_next_writeback hstate hends
  refine ⟨?_, by rw [hr]; exact hstate⟩
  constructor
  case inFlush => rw [hr]; exact h.inFlush
  case lt => exact h.lt
  case flushLine => rw [hr]; exact h.flushLine
  case fillLine => rw [hr]; exact h.fillLine
  case dirty => rw [hr]; exact h.dirty
  case cleared =>
    apply h.cleared.of_tmem
    apply tmem_next_busy <;> simp [hstate]

/-- The scan goes on with the line after it. -/
theorem Saving.ends (h : Saving tags s c) (hstate : s.r.state = .writeback)
    (hends : writebackEnds i s = true) : Starting tags (next i s) (c + 1) := by
  obtain ⟨hstate', -, hin, hfill, hflush⟩ := writeback_flushes hstate h.inFlush hends
  constructor
  case state => exact hstate'
  case inFlush => exact hin
  case le => exact h.lt
  case flushLine => rw [hflush, h.flushLine]
  case fillLine => rw [hfill, h.fillLine, Nat.add_sub_cancel]
  case cleared =>
    apply h.cleared.of_tmem
    apply tmem_next_busy <;> simp [hstate]

end Clocks

/-! ## The run -/

section Return

variable (s₀ : Dcache t l) (inputs : Nat → DcacheInput t l)

/-- The lines for which `writeback` is entered in the `d` clocks from `n` on. -/
def writebackEntries (n d : Nat) : List (BitVec l × BitVec t) :=
  Run.events (fun k => enters (inputs k) (run s₀ inputs k)) n d

/-- The cache is back in idle `d` clocks after `n` and not before, without a valid entry, and has
written back the lines of a list. -/
structure FlushedIn (n d : Nat) (lines : List (BitVec l × BitVec t)) : Prop where
  busy : ∀ k < d, (run s₀ inputs (n + k)).r.state ≠ .idle
  flushed : Flushed (run s₀ inputs (n + d))
  entries : writebackEntries s₀ inputs n d = lines

variable {s₀ inputs}
variable {tags : BitVec l → Entry (BitVec t)} {c n : Nat}

/-- A clock of the flush in front of the rest of it. -/
theorem FlushedIn.clock {d : Nat} {lines : List (BitVec l × BitVec t)}
    (h : FlushedIn s₀ inputs (n + 1) d lines) (hbusy : (run s₀ inputs n).r.state ≠ .idle) :
    FlushedIn s₀ inputs n (d + 1)
      ((enters (inputs n) (run s₀ inputs n)).toList ++ lines) := by
  constructor
  case busy =>
    intro k hk
    cases k with
    | zero => exact hbusy
    | succ k =>
      have := h.busy k (by omega)
      rwa [show n + 1 + k = n + (k + 1) by omega] at this
  case flushed =>
    have := h.flushed
    rwa [show n + 1 + d = n + (d + 1) by omega] at this
  case entries =>
    rw [writebackEntries, Run.events_cons, ← writebackEntries, h.entries]

theorem FlushedIn.silent_clock {lines : List (BitVec l × BitVec t)}
    (h : ∃ d, FlushedIn s₀ inputs (n + 1) d lines) (hbusy : (run s₀ inputs n).r.state ≠ .idle)
    (hsilent : (run s₀ inputs n).r.state = .writeback ∨
      (run s₀ inputs (n + 1)).r.state ≠ .writeback) : ∃ d, FlushedIn s₀ inputs n d lines := by
  obtain ⟨d, hd⟩ := h
  have hmore := hd.clock hbusy
  rw [enters_eq_none hsilent] at hmore
  exact ⟨d + 1, hmore⟩

/-- The flush ends in the next clock. -/
theorem FlushedIn.last (h : Flushed (run s₀ inputs (n + 1)))
    (hbusy : (run s₀ inputs n).r.state ≠ .idle) : ∃ d, FlushedIn s₀ inputs n d [] := by
  have hnow : FlushedIn s₀ inputs (n + 1) 0 [] := by
    constructor
    case busy => omega
    case flushed => exact h
    case entries => rfl
  exact FlushedIn.silent_clock ⟨0, hnow⟩ hbusy (.inr (by rw [h.state]; decide))

/-- From a write-back the flush goes on to the next line, for every number of clocks it takes. -/
theorem Saving.returns
    (hends : ∀ k, (run s₀ inputs k).r.state = .writeback →
      ∃ m ≥ k, (run s₀ inputs m).r.state ≠ .writeback)
    (hrest : ∀ n, Starting tags (run s₀ inputs n) (c + 1) →
      ∃ d, FlushedIn s₀ inputs n d (dirtyFrom tags (c + 1)))
    (h : Saving tags (run s₀ inputs n) c) (hstate : (run s₀ inputs n).r.state = .writeback) :
    ∃ d, FlushedIn s₀ inputs n d (dirtyFrom tags (c + 1)) := by
  obtain ⟨m, hm, hleft⟩ := hends n hstate
  -- by induction on the clocks until the state is left
  induction hk : m - n generalizing n with
  | zero =>
    obtain rfl : m = n := by omega
    exact absurd hstate hleft
  | succ k ih =>
    apply FlushedIn.silent_clock _ (by simp [hstate]) (.inl hstate)
    by_cases hnow : writebackEnds (inputs n) (run s₀ inputs n) = true
    · exact hrest (n + 1) (h.ends hstate hnow)
    · obtain ⟨h', hstate'⟩ := h.waits hstate (by simpa using hnow)
      exact ih h' hstate' (by omega) (by omega)

theorem Starting.returns (hl : 0 < l)
    (hrest : ∀ n, Examining tags (run s₀ inputs n) c →
      ∃ d, FlushedIn s₀ inputs n d (dirtyFrom tags c))
    (h : Starting tags (run s₀ inputs n) c) :
    ∃ d, FlushedIn s₀ inputs n d (dirtyFrom tags c) := by
  have hbusy : (run s₀ inputs n).r.state ≠ .idle := by simp [h.state]
  by_cases hc : c < 2 ^ l
  · have hnext : Examining tags (run s₀ inputs (n + 1)) c := h.step hl hc
    exact FlushedIn.silent_clock (hrest (n + 1) hnext) hbusy (.inr (by rw [hnext.state]; decide))
  · obtain rfl : c = 2 ^ l := by have := h.le; omega
    rw [dirtyFrom_end]
    exact FlushedIn.last h.last hbusy

theorem Examining.returns
    (hends : ∀ k, (run s₀ inputs k).r.state = .writeback →
      ∃ m ≥ k, (run s₀ inputs m).r.state ≠ .writeback)
    (hstarting : ∀ n, Starting tags (run s₀ inputs n) (c + 1) →
      ∃ d, FlushedIn s₀ inputs n d (dirtyFrom tags (c + 1)))
    (hexamining : ∀ n, Examining tags (run s₀ inputs n) (c + 1) →
      ∃ d, FlushedIn s₀ inputs n d (dirtyFrom tags (c + 1)))
    (h : Examining tags (run s₀ inputs n) c) :
    ∃ d, FlushedIn s₀ inputs n d (dirtyFrom tags c) := by
  have hbusy : (run s₀ inputs n).r.state ≠ .idle := by simp [h.state]
  have hline := h.dirtyLine_eq
  rw [dirtyFrom_cons tags h.lt]
  by_cases hdirty : victimDirty (run s₀ inputs n) = true
  · -- two clocks to the state `writeback`, the second of which enters it
    obtain ⟨hsaving, hprepare⟩ : Saving tags (run s₀ inputs (n + 1)) c ∧
        (run s₀ inputs (n + 1)).r.state = .preparewb := h.step_dirty hdirty
    obtain ⟨hsaving', hwriteback, hentry⟩ := hsaving.prepare (i := inputs (n + 1)) hprepare
    obtain ⟨d, hd⟩ := hsaving'.returns (n := n + 2) hends hstarting hwriteback
    apply FlushedIn.silent_clock _ hbusy (.inr (by rw [hprepare]; decide))
    refine ⟨d + 1, ?_⟩
    rw [← hentry]
    exact hd.clock (by rw [hprepare]; decide)
  · have hclean : victimDirty (run s₀ inputs n) = false := by simpa using hdirty
    rw [if_neg hdirty] at hline
    rw [hline]
    by_cases hc : c + 1 < 2 ^ l
    · have hnext : Examining tags (run s₀ inputs (n + 1)) (c + 1) := h.step_clean hclean hc
      apply FlushedIn.silent_clock (hexamining (n + 1) hnext) hbusy
      exact .inr (by rw [hnext.state]; decide)
    · have hlast : c + 1 = 2 ^ l := by have := h.lt; omega
      rw [hlast, dirtyFrom_end]
      exact FlushedIn.last (h.last hclean hlast) hbusy

/-- The rest of a scan, by induction on the number of lines that are left. -/
theorem scan_returns (hl : 0 < l)
    (hends : ∀ k, (run s₀ inputs k).r.state = .writeback →
      ∃ m ≥ k, (run s₀ inputs m).r.state ≠ .writeback) (r : Nat) :
    ∀ c, 2 ^ l - c = r →
      (∀ n, Starting tags (run s₀ inputs n) c →
        ∃ d, FlushedIn s₀ inputs n d (dirtyFrom tags c)) ∧
      (∀ n, Examining tags (run s₀ inputs n) c →
        ∃ d, FlushedIn s₀ inputs n d (dirtyFrom tags c)) := by
  induction r with
  | zero =>
    intro c hr
    have hnone : ∀ n, Examining tags (run s₀ inputs n) c →
        ∃ d, FlushedIn s₀ inputs n d (dirtyFrom tags c) := by
      intro n h
      have := h.lt
      omega
    exact ⟨fun n h => h.returns hl hnone, hnone⟩
  | succ r ih =>
    intro c hr
    obtain ⟨hstarting, hexamining⟩ := ih (c + 1) (by omega)
    have hlook : ∀ n, Examining tags (run s₀ inputs n) c →
        ∃ d, FlushedIn s₀ inputs n d (dirtyFrom tags c) :=
      fun n h => h.returns hends hstarting hexamining
    exact ⟨fun n h => h.returns hl hlook, hlook⟩

/-- The entry into the scan. -/
theorem Starting.enter {i : DcacheInput t l} {s : Dcache t l} (hin : s.r.inFlush = false)
    (hidle : s.r.state = .idle) (hflush : (next i s).r.state = .flush) :
    Starting (next i s).tmem (next i s) 0 := by
  cases idleStep (i := i) hidle with
  | flushes _ hkeeps _ hlines =>
    constructor
    case state => exact hflush
    case inFlush => exact hkeeps.inFlush.trans hin
    case le => exact Nat.zero_le _
    case flushLine => exact hlines.2
    case fillLine => exact hlines.1
    case cleared => exact ⟨by omega, fun _ _ => rfl⟩
  | accepts _ hr =>
    rw [hr] at hflush
    have : s.r.state = .flush := hflush
    rw [hidle] at this
    cases this
  | direct _ _ _ hstate' => rw [hstate'] at hflush; cases hflush
  | evicts _ _ _ _ hstate' =>
    rw [hstate'] at hflush
    cases hwe : s.r.request.we <;> simp [hwe] at hflush
  | fills _ _ _ _ _ hstate' => rw [hstate'] at hflush; cases hflush

def withTags (s : Dcache t l) (tags : BitVec l → Entry (BitVec t)) : Dcache t l :=
  { s with tmem := tags }

/-- A flush that begins in idle, in a state that is reached from reset but for the content of the
tag memory, writes back the lines that are valid and dirty, each once and in order, and comes back
to idle with no line valid. -/
theorem flush_visits (hl : 0 < l) (hreset : Reset s₀) (before : Nat → DcacheInput t l) (n : Nat)
    (tags : BitVec l → Entry (BitVec t)) (inputs : Nat → DcacheInput t l)
    (hidle : (run s₀ before n).r.state = .idle)
    (hflush : (run ((run s₀ before n).withTags tags) inputs 1).r.state = .flush)
    (hends : ∀ k, (run ((run s₀ before n).withTags tags) inputs k).r.state = .writeback →
      ∃ m ≥ k, (run ((run s₀ before n).withTags tags) inputs m).r.state ≠ .writeback) :
    ∃ d, FlushedIn ((run s₀ before n).withTags tags) inputs 1 d
      (dirtyLines (run ((run s₀ before n).withTags tags) inputs 1).tmem) := by
  have hin : ((run s₀ before n).withTags tags).r.inFlush = false := by
    cases control_run hreset before n with
    | idle _ hin => exact hin
    | _ => simp_all
  exact (scan_returns hl hends _ 0 rfl).1 1 (.enter hin hidle hflush)

/-- Nothing is asked of the cache; the slave answers a word one clock after it took it. -/
def quiet (k : Nat) : DcacheInput 1 1 :=
  { DcacheInput.offering (readOf ⟨0, 0, 0⟩) (k ≠ 4) with strobe := false }

def bothDirty (k : BitVec 1) : Entry (BitVec 1) := ⟨true, true, k⟩

theorem idle_stays {i : DcacheInput t l} {s : Dcache t l} (hi : i.strobe = false ∧ i.flush = false)
    (h : s.r.state = .idle ∧ s.r.req = false ∧ s.r.flushReq = false) :
    (next i s).r.state = .idle ∧ (next i s).r.req = false ∧ (next i s).r.flushReq = false := by
  obtain ⟨hstate, hreq, hno⟩ := h
  have hcase : caseNext i s = idleNext i s := by simp [caseNext, hstate]
  rw [r_next_of hcase]
  simp [idleNext, willBusy, miss, hreq, hno, accept, defaults, hstate, hi]

/-- Both lines go out, and the cache stays idle from clock 41 on. -/
theorem flush_visits_bothDirty :
    dirtyLines bothDirty = [(0, 0), (1, 1)] ∧
      ∃ d, FlushedIn ((reset fun _ => 5).withTags bothDirty) quiet 1 d
        (dirtyLines (run ((reset fun _ => 5).withTags bothDirty) quiet 1).tmem) := by
  have hidle : ∀ k, (run ((reset fun _ => 5).withTags bothDirty) quiet (41 + k)).r.state = .idle ∧
      (run ((reset fun _ => 5).withTags bothDirty) quiet (41 + k)).r.req = false ∧
      (run ((reset fun _ => 5).withTags bothDirty) quiet (41 + k)).r.flushReq = false := by
    intro k
    induction k with
    | zero => decide +kernel
    | succ k ih => exact idle_stays ⟨rfl, rfl⟩ ih
  refine ⟨by decide, ?_⟩
  refine flush_visits (by decide) (reset_reset fun _ => 5) quiet 0 bothDirty quiet rfl
    (by decide) ?_
  intro k _
  refine ⟨41 + k, by omega, ?_⟩
  show (run ((reset fun _ => 5).withTags bothDirty) quiet (41 + k)).r.state ≠ .writeback
  rw [(hidle k).1]
  decide

end Return

end Dcache

end Xtc
