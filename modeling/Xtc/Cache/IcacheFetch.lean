import Xtc.Cache.Icache

/-!
# IcacheFetch — the fetch unit in front of the instruction cache

The cache answers in the clock of the request: `stall` does not depend on `strobe`, and `valid` does
only for an access that is not sequential, which the fetch unit makes in the jumping state.
-/

namespace Xtc

/-- The inputs of a clock: the pipeline, then the flush, the bus and the unknown levels. -/
structure FrontInput where
  freeze : Bool
  jump : Bool
  jumppriv : Bool
  jumpaddr : Word
  cache : IcacheInput

structure Front where
  fr : FetchRegs
  cache : Icache

namespace Front

section

variable (i : FrontInput) (s : Front)

def pipeline : FetchInput where
  stall := false
  valid := false
  read := s.cache.data
  freeze := i.freeze
  jump := i.jump
  jumppriv := i.jumppriv
  jumpaddr := i.jumpaddr

def asked (strobe : Bool) : IcacheInput :=
  { i.cache with
    address := s.fr.fpc
    strobe := strobe
    enable := Fetch.enable (pipeline i s) s.fr
    seq := s.fr.seq
    abort := Fetch.abort (pipeline i s) s.fr }

def fetchIn : FetchInput :=
  { pipeline i s with
    stall := Icache.stallInput (asked i s true) s.cache
    valid := Icache.dataValid (asked i s true) s.cache }

def cacheIn : IcacheInput := asked i s (Fetch.strobe (fetchIn i s) s.fr)

def next (rom : Word → Word) : Front where
  fr := Fetch.next (fetchIn i s) s.fr
  cache := Icache.next (cacheIn i s) s.cache rom

end

abbrev run (rom : Word → Word) (s₀ : Front) (inputs : Nat → FrontInput) (n : Nat) : Front :=
  Run.states (fun i s => next i s rom) s₀ inputs n

structure Wired (f : FetchInput) (i : IcacheInput) (s : Front) : Prop where
  address : i.address = s.fr.fpc
  strobe : i.strobe = Fetch.strobe f s.fr
  enable : i.enable = Fetch.enable f s.fr
  seq : i.seq = s.fr.seq
  abort : i.abort = Fetch.abort f s.fr
  stall : f.stall = Icache.stallInput i s.cache
  valid : f.valid = Icache.dataValid i s.cache
  read : f.read = s.cache.data

/-- An access from the running state is sequential. -/
def Sequential (fr : FetchRegs) : Prop := fr.state = .running → fr.seq = true

section

variable {i : FrontInput} {s : Front}

theorem sequential_next {f : FetchInput} {fr : FetchRegs} (h : Sequential fr) :
    Sequential (Fetch.next f fr) := by
  intro hrunning
  cases hs : fr.state with
  | running =>
    rw [Fetch.next_running _ _ hs] at hrunning ⊢
    cases hj : f.jump with
    | true => simp [hj, Fetch.redirect] at hrunning
    | false => exact Fetch.advance_seq _ _ (h hs)
  | jumping =>
    simp only [Fetch.next, hs] at hrunning ⊢
    split_ifs at hrunning ⊢ <;> simp_all
  | aligning =>
    simp only [Fetch.next, hs] at hrunning ⊢
    split_ifs at hrunning ⊢ <;> simp_all

theorem wired (h : Sequential s.fr) : Wired (fetchIn i s) (cacheIn i s) s where
  address := rfl
  strobe := rfl
  enable := rfl
  seq := rfl
  abort := rfl
  stall := rfl
  valid := by
    show Icache.dataValid (asked i s true) s.cache = Icache.dataValid (asked i s _) s.cache
    -- `valid` reads `strobe` in the filling state, and only if the access is not sequential
    cases hs : s.fr.state with
    | running =>
      have hseq : s.fr.seq = true := h hs
      simp only [Icache.dataValid, asked, hseq]
      rfl
    | jumping => simp [Fetch.strobe, hs]
    | aligning => simp [Fetch.strobe, hs]
  read := rfl

theorem run_wired (rom : Word → Word) (s₀ : Front) (h : Sequential s₀.fr)
    (inputs : Nat → FrontInput) (n : Nat) :
    Wired (fetchIn (inputs n) (run rom s₀ inputs n)) (cacheIn (inputs n) (run rom s₀ inputs n))
      (run rom s₀ inputs n) := by
  apply wired
  induction n with
  | zero => exact h
  | succ n ih => exact sequential_next ih

end

end Front

end Xtc
