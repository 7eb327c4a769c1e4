import Xtc.Cache.DcacheStep

/-!
# DcacheTransparent — a read returns what was written last
-/

namespace Xtc

namespace Dcache

open WriteBack (Holds)

variable {t l : Nat} {i : DcacheInput t l} {o : Observed t l}

/-- The cache acknowledges the request it accepted last, and if that is a read, with the word that
is in the memory that is shown. -/
def Transparent (i : DcacheInput t l) (o : Observed t l) : Prop :=
  valid i o.cache = true → ∃ q, o.last = some q ∧ (q.we = false → data i o.cache = o.spec q.addr)

theorem no_write {q : DcacheRequest t l} (h : q.we = false) :
    inFlight q = none ∧ cacheWrite q = none := by
  simp [inFlight, cacheWrite, h]

theorem Looking.transparent (h : Looking o) (hstate : o.cache.r.state = .idle) :
    Transparent i o := by
  intro hvalid
  refine ⟨o.cache.r.request, h.pending.last, fun hwe => ?_⟩
  obtain ⟨hflight, hcache⟩ := no_write hwe
  obtain ⟨cm, hslot, -, hcoherent⟩ := h.data
  rw [hflight, hcache] at hcoherent
  have hhit : Dcache.hit o.cache = true := by
    have : o.cache.r.req = true ∧ miss o.cache = false := by
      simpa [Dcache.valid, hstate] using hvalid
    have hmiss := this.2
    simp only [miss, this.1, Bool.true_and, Bool.or_eq_false_iff] at hmiss
    simpa using hmiss.1
  have hholds : Holds (Address.layout t l) (o.cache.tmem o.cache.r.request.addr.line)
      o.cache.r.request.addr := by
    simp only [Dcache.hit, Bool.and_eq_true, beq_iff_eq] at hhit
    rw [h.valid, h.tag] at hhit
    exact hhit
  have hdata : Dcache.data i o.cache = o.cache.cmemDoa := by simp [Dcache.data, hstate]
  rw [hdata, ← hslot]
  exact hcoherent.word hholds

theorem Direct.transparent (h : Direct o) (hstate : o.cache.r.state = .directmemory)
    (hbus : o.cache.bus = if o.cache.r.fillRDone then [directRequest o.cache] else []) :
    Transparent i o := by
  intro hvalid
  refine ⟨o.cache.r.request, h.pending.last, fun hwe => ?_⟩
  have hack : ack i o.cache = true := by simpa [valid, hstate] using hvalid
  obtain ⟨q, hq⟩ := Option.isSome_iff_exists.mp hack
  have hdirect := (direct_answer hstate hbus hq).1
  have hdata : data i o.cache = o.cache.mem o.cache.r.request.addr := by
    simp [data, hstate, mwbiDat, hq, hdirect, directRequest, hwe]
  have hcoherent := h.coherent
  rw [(no_write hwe).1] at hcoherent
  rw [hdata]
  have hclean : ¬ (Holds (Address.layout t l) (o.cache.tmem o.cache.r.request.addr.line)
      o.cache.r.request.addr ∧ (o.cache.tmem o.cache.r.request.addr.line).dirty = true) := by
    rintro ⟨hholds, hdirty⟩
    rw [(h.passesBy hholds).2] at hdirty
    cases hdirty
  exact ((hcoherent _).memory hclean).eq

theorem Filling.transparent {acked : Nat} (h : Filling o acked)
    (hstate : o.cache.r.state = .readline) (hmissed : Missed o.cache) : Transparent i o := by
  intro hvalid
  refine ⟨o.cache.r.request, h.pending.last, fun hwe => ?_⟩
  have hack : o.cache.r.ackQQ = true := by
    have : o.cache.r.ackQQ = true ∧ o.cache.r.finishedW = o.cache.r.reqOffset := by
      simpa [valid, hstate] using hvalid
    exact this.1
  have hdata : data i o.cache = o.cache.cmemDoa := by simp [data, hstate]
  have hcurrent := h.current
  rw [(no_write hwe).1] at hcurrent
  rw [hdata, h.ackQQ hack]
  exact (hcurrent _ hmissed.line.symm).eq

theorem Sound.transparent (h : Sound o) (hc : Control o.cache) : Transparent i o := by
  cases h with
  | looking hstate _ h => exact h.transparent hstate
  | direct hstate h =>
    cases hc with
    | directmemory _ _ _ hbus => exact h.transparent hstate hbus
    | _ => simp_all
  | filling _ _ hstate _ h =>
    cases hc with
    | readline _ _ _ hmissed _ => exact h.transparent hstate hmissed
    | _ => simp_all
  -- nothing is acknowledged in the other states
  | _ => intro hvalid; simp_all [valid]

/-- In a run from reset whose clocks keep the data the cache is transparent in every clock. -/
theorem transparent_run (hl : 0 < l) {s₀ : Dcache t l} (inputs : Nat → DcacheInput t l) (n : Nat)
    (hreset : Reset s₀) (hkept : ∀ k < n, Kept (inputs k) (observed s₀ inputs k)) :
    Transparent (inputs n) (observed s₀ inputs n) := by
  have hinv : Sound (observed s₀ inputs n) ∧ Control (observed s₀ inputs n).cache := by
    refine Run.invariant (fun o => Sound o ∧ Control o.cache) Kept ?_ ?_ n hkept
    · exact ⟨hreset.sound, hreset.control⟩
    · intro i o hk h
      exact ⟨h.1.step hl h.2 hk, h.2.step⟩
  exact hinv.1.transparent hinv.2

instance (i : DcacheInput t l) (s : Dcache t l) : Decidable (Orderly i s) :=
  decidable_of_iff _ (orderly_iff ..).symm

set_option synthInstance.maxSize 1000 in
instance (i : DcacheInput t l) (o : Observed t l) : Decidable (Kept i o) :=
  decidable_of_iff _ (kept_iff ..).symm

def readOf (a : Address t l) : DcacheRequest t l := ⟨a, false, 15, 0, 0, .wbWa⟩

def writeOf (a : Address t l) (d : Word) : DcacheRequest t l := ⟨a, true, 15, d, 0, .wbWa⟩

/-- A write brings a line in, a read of another tag puts it out, and a read brings it back. -/
def evicted (k : Nat) : DcacheInput 1 1 :=
  .offering
    (if k ≤ 4 then writeOf ⟨0, 1, 5⟩ 7 else if k ≤ 25 then readOf ⟨1, 1, 5⟩ else readOf ⟨0, 1, 5⟩)
    (k ∉ [6, 28, 45, 65])

theorem transparent_run_evicted :
    valid (evicted 83) (observed (reset fun _ => 5) evicted 83).cache = true ∧
      Transparent (evicted 83) (observed (reset fun _ => 5) evicted 83) :=
  ⟨by decide +kernel, transparent_run (by decide) evicted 83 (reset_reset _) (by decide +kernel)⟩

/-- A line is read and written, and in the clock of the hit another tag is asked for. -/
def overtaken (k : Nat) : DcacheInput 19 7 :=
  .offering
    (if k ≤ 130 then readOf ⟨0, 3, 5⟩ else if k ≤ 150 then writeOf ⟨0, 3, 5⟩ 7
      else if k ≤ 151 then readOf ⟨1, 3, 5⟩ else readOf ⟨0, 3, 5⟩)
    (k ∉ [132, 153, 173])

/-- The second request sees the old dirty bit, so the line is not written back and the write is
lost. -/
theorem write_lost :
    Reset (reset fun _ : Address 19 7 => 5) ∧
      (∀ k < 191, ∀ q ∈ (observed (reset fun _ => 5) overtaken k).held,
        (overtaken k).offers = some q) ∧
      (∀ k, (overtaken k).request.cached = true) ∧
      ¬ Transparent (overtaken 191) (observed (reset fun _ => 5) overtaken 191) := by
  have hrun : (∀ k < 191, ∀ q ∈ (observed (reset fun _ => 5) overtaken k).held,
        (overtaken k).offers = some q) ∧
      valid (overtaken 191) (observed (reset fun _ => 5) overtaken 191).cache = true ∧
      (observed (reset fun _ => 5) overtaken 191).last = some (readOf ⟨0, 3, 5⟩) ∧
      data (overtaken 191) (observed (reset fun _ => 5) overtaken 191).cache ≠
        (observed (reset fun _ => 5) overtaken 191).spec ⟨0, 3, 5⟩ := by decide +kernel
  obtain ⟨hheld, hvalid, hlast, hdata⟩ := hrun
  refine ⟨reset_reset _, hheld, ?_, ?_⟩
  · intro k
    unfold overtaken DcacheInput.offering
    split_ifs <;> rfl
  · intro h
    obtain ⟨q, hq, hread⟩ := h hvalid
    rw [hlast] at hq
    cases hq
    exact hdata (hread rfl)

end Dcache

end Xtc
