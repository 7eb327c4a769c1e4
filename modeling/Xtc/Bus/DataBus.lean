import Xtc.Bus.Mux
import Xtc.Cache.Dcache
import Xtc.Core.Backend

/-!
# DataBus — the pipeline on its data cache and the two slaves behind it

`xtc.vhd` wires the memory stage to the data cache, 8 KB in lines of 64 bytes, and `xtc_wbmux2`
connects the cache to two slaves.  A slave answers with `ack` or with `err`, and only what it has
taken.  The multiplexer hands both on; the data cache looks at `ack` alone and drives `co.err` with
a constant zero.
-/

namespace Xtc

/-- Here `CACHE_MAX_BITS` is 13 and `CACHE_LINE_SIZE_BITS` is 6. -/
abbrev DataCache := Dcache 19 7

namespace DataCache

def address (a : Word) : Address 19 7 := ⟨a.extractLsb 31 13, a.extractLsb 12 6, a.extractLsb 5 2⟩

def wordAddress (a : Address 19 7) : Word := a.tag ++ a.line ++ a.offset ++ 0#2

def accesstype (a : Word) : AccessType := if a.getLsbD 31 then .nocache else .wt

def busTag : BusTag 7 → Word
  | .fill line offset => 0#20 ++ 1#1 ++ line ++ offset
  | .writeback => 0
  | .direct tag => tag

def cyc (s : DataCache) : Bool :=
  match s.r.state with
  | .directmemory | .readline | .writeback => true
  | _ => false

def err : Bool := false

end DataCache

structure DataBusInput where
  -- the pipeline; its bus is the cache's
  core : BackendInput
  -- `dcache_flush`
  flush : Bool
  s0Wbi : Miso
  s1Wbi : Miso
  -- unknown levels
  xDat : Word
  xTag : Word
  xSlot : Option (BitVec 7 × LineOffset)

structure DataBus where
  core : Backend
  cache : DataCache
  mux : Mux Nat

namespace DataBus

section Signals

variable (i : DataBusInput) (s : DataBus)

def cacheRequest : DcacheRequest 19 7 where
  addr := DataCache.address s.core.mr.wbAdr
  we := s.core.mr.wbWe
  wmask := s.core.mr.wbSel
  data := s.core.mr.wbDat
  tag := s.core.mr.wbTago
  accesstype := DataCache.accesstype s.core.mr.wbAdr

/-- The cache's inputs for a given answer of the bus; `strobe` is never up without `wb_cyc`. -/
def cacheInput (wbi : Miso) : DcacheInput 19 7 where
  strobe := s.core.mr.wbStb
  enable := s.core.mr.wbCyc
  flush := i.flush
  request := cacheRequest s
  busStall := wbi.stall
  busAck := wbi.ack
  xSlot := i.xSlot
  xDat := wbi.dat
  xTag := i.xTag

/-- The signal `wbo`, which does not depend on the answer. -/
def wbo : Mosi :=
  match Dcache.busRequest (cacheInput i s ⟨false, 0, 0, false, false⟩) s.cache with
  | some q =>
      { dat := (q.store.map (·.2)).getD 0
        adr := DataCache.wordAddress q.adr
        tag := DataCache.busTag q.tag
        cyc := true
        stb := true
        sel := (q.store.map (·.1)).getD 0
        cti := 0
        bte := 0
        we := q.store.isSome }
  | none => { Mosi.idle with cyc := s.cache.cyc }

def muxInput (s0Wbi s1Wbi : Miso) : MuxInput where
  mWbi := wbo i s
  s0Wbi := s0Wbi
  s1Wbi := s1Wbi
  xDat := i.xDat
  xTag := i.xTag

/-- Slave `j` has something to answer; `select_line` is 31. -/
def pending (j : Bool) : Bool :=
  Mux.cnt s.mux j != 0 || Mux.accepted .counter 31 (muxInput i s i.s0Wbi i.s1Wbi) s.mux j

def slave (j : Bool) : Miso :=
  let m := if j then i.s1Wbi else i.s0Wbi
  { m with ack := m.ack && pending i s j, err := m.err && pending i s j }

def muxIn : MuxInput := muxInput i s (slave i s false) (slave i s true)

def wbi : Miso := Mux.mWbo .counter 31 (muxIn i s) s.mux

def cacheIn : DcacheInput 19 7 := cacheInput i s (wbi i s)

/-- What the memory behind the bus holds is what the slaves answer. -/
def cacheOn : DataCache := { s.cache with mem := fun _ => (wbi i s).dat }

def mwbi : BusInput where
  ack := Dcache.valid (cacheIn i s) (cacheOn i s)
  dat := Dcache.data (cacheIn i s) (cacheOn i s)
  tag := Dcache.tag (cacheIn i s) (cacheOn i s)
  err := DataCache.err
  stall := Dcache.stall (cacheIn i s) (cacheOn i s)

def coreIn : BackendInput :=
  { i.core with busStall := (mwbi i s).stall, busAck := (mwbi i s).ack, busDat := (mwbi i s).dat }

/-- The tag comes back from the cache. -/
def coreOn : Backend := { s.core with bus := [(mwbi i s).tag] }

theorem busIn_eq : Backend.busIn (coreIn i s) (coreOn i s) = mwbi i s := by
  simp [Backend.busIn, coreIn, coreOn, mwbi, DataCache.err]

def next : DataBus where
  core := Backend.next (coreIn i s) (coreOn i s)
  cache := Dcache.next (cacheIn i s) (cacheOn i s)
  mux := Mux.next .counter 31 (muxIn i s) s.mux

/-! An answer with an error -/

def ErrAnswered : Prop :=
  s.cache.r.state = .directmemory ∧ s.cache.r.request.accesstype = .nocache ∧
    ((slave i s false).err = true ∨ (slave i s true).err = true)

/-- A trap is taken, and its fault code is `code`. -/
def TrapsWith (code : BitVec 4) : Prop :=
  Backend.trap (coreIn i s) (coreOn i s) = true ∧ (next i s).core.er.psr.extractLsb 7 4 = code

/-- The load port writes what the bus has answered. -/
def writesAnswer : Bool := (mwbi i s).ack && Backend.mregwe (coreIn i s) (coreOn i s)

instance : Decidable (ErrAnswered i s) := inferInstanceAs (Decidable (_ ∧ _))

instance (code : BitVec 4) : Decidable (TrapsWith i s code) := inferInstanceAs (Decidable (_ ∧ _))

end Signals

structure Reset (s : DataBus) : Prop where
  core : s.core.Reset
  cache : s.cache.Reset
  mux : s.mux.Reset .counter

abbrev run (s₀ : DataBus) (inputs : Nat → DataBusInput) (n : Nat) : DataBus :=
  Run.states next s₀ inputs n

/-! ## No error reaches the pipeline -/

section Clock

variable {i : DataBusInput} {s : DataBus}

theorem fault_next : (next i s).core.mr.fault = false := by
  show (Memory.next (Backend.access (coreIn i s) (coreOn i s))
    (Backend.busIn (coreIn i s) (coreOn i s)) (coreOn i s).mr).fault = false
  rw [busIn_eq]
  unfold Memory.next
  split <;> rfl

theorem fault_run {s₀ : DataBus} (hreset : Reset s₀) (inputs : Nat → DataBusInput) (n : Nat) :
    (run s₀ inputs n).core.mr.fault = false := by
  induction n with
  | zero => exact hreset.core.mr.fault
  | succ n _ => exact fault_next

theorem statusTrap_fault (psr : Word) (fault : BitVec 4) :
    (Execute.statusTrap psr fault).extractLsb 7 4 = fault := by
  apply BitVec.eq_of_getLsbD_eq
  intro k hk
  simp only [Execute.statusTrap, BitVec.getLsbD_extractLsb, BitVec.getLsbD_append]
  interval_cases k <;> simp

theorem faultAddress_memFault {e : ExecuteInput} {er : ExecuteRegs} (h : e.memFault = false) :
    Execute.faultAddress e er ≠ 3 := by
  unfold Execute.faultAddress
  simp only [h, Bool.false_eq_true, if_false]
  split_ifs <;> decide

theorem not_trapsWith (hfault : s.core.mr.fault = false) : ¬ TrapsWith i s 3 := by
  rintro ⟨htrap, hcode⟩
  change Execute.doFault (Backend.ex (coreIn i s) (coreOn i s)) s.core.er = true at htrap
  have hpsr : (next i s).core.er.psr =
      if Execute.doFault (Backend.ex (coreIn i s) (coreOn i s)) s.core.er then
        Execute.statusTrap (Execute.psrBefore (Backend.ex (coreIn i s) (coreOn i s)) s.core.er)
          (Execute.faultAddress (Backend.ex (coreIn i s) (coreOn i s)) s.core.er)
      else Execute.psrBefore (Backend.ex (coreIn i s) (coreOn i s)) s.core.er :=
    Execute.next_psr _ _
  rw [hpsr, if_pos htrap, statusTrap_fault] at hcode
  exact faultAddress_memFault hfault hcode

end Clock

/-- In every run from reset, the errors of uncached accesses become memory faults and their data is
dropped if and only if there are no errors. -/
theorem errors_trap_iff {s₀ : DataBus} (hreset : Reset s₀) (inputs : Nat → DataBusInput) :
    (∀ n, ErrAnswered (inputs n) (run s₀ inputs n) →
        (∃ m ≥ n, TrapsWith (inputs m) (run s₀ inputs m) 3) ∧
          writesAnswer (inputs n) (run s₀ inputs n) = false) ↔
      ∀ n, ¬ ErrAnswered (inputs n) (run s₀ inputs n) := by
  constructor
  · intro h n herr
    obtain ⟨⟨m, -, htrap⟩, -⟩ := h n herr
    exact not_trapsWith (fault_run hreset inputs m) htrap
  · intro h n herr
    exact absurd herr (h n)

/-! ### A load from a device that does not answer -/

def reset : DataBus where
  core := { Backend.reset with ram := fun _ => 0x80000000 }
  cache := Dcache.reset fun _ => 0
  mux := ⟨false, 0, 0, false, 0, 0⟩

theorem reset_reset : Reset reset where
  core :=
    { dr := Backend.reset_reset.dr
      fdr := Backend.reset_reset.fdr
      er := Backend.reset_reset.er
      mr := Backend.reset_reset.mr
      dirty := rfl
      bus := rfl }
  cache := Dcache.reset_reset _
  mux := ⟨rfl, rfl, rfl⟩

/-- A load into `r2` and nothing behind it; slave 1 answers at once. -/
def loading (err : Bool) (k : Nat) : DataBusInput where
  core := .rest (fetched 0x1821 0 (k == 0))
  flush := false
  s0Wbi := ⟨false, 0, 0, false, false⟩
  s1Wbi := ⟨!err, 0xDEADBEEF, 0, err, false⟩
  xDat := 0
  xTag := 0
  xSlot := none

theorem errors_trap_iff_acked :
    Reset reset ∧ ∀ n, ErrAnswered (loading false n) (run reset (loading false) n) →
      (∃ m ≥ n, TrapsWith (loading false m) (run reset (loading false) m) 3) ∧
        writesAnswer (loading false n) (run reset (loading false) n) = false := by
  refine ⟨reset_reset, (errors_trap_iff reset_reset (loading false)).mpr ?_⟩
  rintro n ⟨-, -, herr⟩
  simp [slave, loading] at herr

/-- The error is not seen: no trap is taken, and the word that came with it is loaded. -/
theorem error_answer_loaded :
    Reset reset ∧ (∀ m, ¬ TrapsWith (loading true m) (run reset (loading true) m) 3) ∧
      (run reset (loading true) 130).core.mr.wbStb = true ∧
      (run reset (loading true) 130).core.mr.wbAdr = 0x80000000 ∧
      ErrAnswered (loading true 132) (run reset (loading true) 132) ∧
      writesAnswer (loading true 132) (run reset (loading true) 132) = true ∧
      (run reset (loading true) 133).core.ram 0x12 = 0xDEADBEEF :=
  ⟨reset_reset, fun m => not_trapsWith (fault_run reset_reset (loading true) m),
    by decide +kernel⟩

end DataBus

end Xtc
