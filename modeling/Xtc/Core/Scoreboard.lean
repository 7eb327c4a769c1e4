import Xtc.Core.Backend

/-!
# Scoreboard — one load at a time

The scoreboard `busycheck` has a single entry.  A load takes it when it enters operand fetch and the
answer of the bus gives it back, so between the two there is exactly one load, either in front of
execute or among the requests of the memory stage, and it is the one the scoreboard names.
-/

namespace Xtc

namespace Backend

section

variable (i : BackendInput) (s : Backend)

def fdLoad : Bool := s.fdr.drq.valid && s.fdr.drq.blocks

/-- The requests the memory stage has made and that are not yet answered, oldest first. -/
def requests : List Word := s.bus ++ if s.mr.wbStb then [s.mr.wbTago] else []

def loads : List Word := (requests s).filter Memory.tagLoad

theorem fdr_drq_next : (next i s).fdr.drq =
    if executeBusy i s then s.fdr.drq
    else { s.dr with valid := s.dr.valid && !flushfd i s && allvalid i s } := by
  simp [next, Fetchdata.next, fdControl]

/-- The request the memory stage queues in this clock. -/
def queued : List Word :=
  if !Memory.busy (busIn i s) s.mr && (access i s).dataAccess then [Memory.tag (access i s)] else []

theorem requests_next : requests (next i s) =
    (if (busIn i s).ack then (requests s).tail else requests s) ++ queued i s := by
  have htail : (busIn i s).ack = true → ∃ t rest, s.bus = t :: rest := by
    intro h
    cases hb : s.bus with
    | nil => simp [busIn, hb] at h
    | cons t rest => exact ⟨t, rest, rfl⟩
  have hpop : (if (busIn i s).ack then (requests s).tail else requests s) =
      (if (busIn i s).ack then s.bus.tail else s.bus) ++
        if s.mr.wbStb then [s.mr.wbTago] else [] := by
    split
    · rename_i h
      obtain ⟨t, rest, hb⟩ := htail h
      simp [requests, hb]
    · rfl
  have hmr : (next i s).mr = Memory.next (access i s) (busIn i s) s.mr := rfl
  have hbus : (next i s).bus = (if (busIn i s).ack then s.bus.tail else s.bus) ++
      if s.mr.wbStb && !i.busStall then [s.mr.wbTago] else [] := rfl
  rw [hpop, requests, hbus, hmr, Memory.next_wbStb, Memory.next_wbTago, queued]
  cases hb : Memory.busy (busIn i s) s.mr with
  | true =>
    have hb' : i.busStall = true ∧ s.mr.wbStb = true := by simpa [Memory.busy, busIn] using hb
    simp [hb'.1, hb'.2]
  | false =>
    have hb' : s.mr.wbStb = true → i.busStall = false := by
      intro hs
      simpa [Memory.busy, busIn, hs] using hb
    cases hs : s.mr.wbStb with
    | true => simp [hb' hs]
    | false => simp

/-- A product comes while execute is stalled, and what stays in front of it takes over the `hold` of
the multiply in decode. -/
def misheld : Bool :=
  i.multValid && Execute.busyInt (ex i s) s.er && !flushfd i s && allvalid i s &&
    (s.dr.valid && s.dr.ismult) && !(s.fdr.drq.valid && s.fdr.drq.ismult)

/-- The conditions on a clock under which loads stay on the books: a load in front of execute
passes its condition and is not squashed, and the `hold` of a multiply goes to a multiply. -/
structure LoadsPass : Prop where
  pass : fdLoad s = true → Execute.passes (ex i s) s.er = .one
  mult : misheld i s = false

/-- Where the load that holds the scoreboard is. -/
inductive LoadPhase : Prop
  | idle (hloads : loads s = []) (hfd : fdLoad s = false) (hdirty : s.dirty = false)
  | ready (hloads : loads s = []) (hfd : fdLoad s = true) (hdirty : s.dirty = true)
      (hreg : s.dirtyReg = s.fdr.drq.sra2)
  | flying (t : Word) (hloads : loads s = [t]) (hfd : fdLoad s = false) (hdirty : s.dirty = true)
      (hreg : s.dirtyReg = Memory.tagReg t)

/-- Only a multiply holds execute. -/
structure Orderly : Prop where
  dr : s.dr.WellFormed
  fd : s.fdr.drq.valid = true → s.fdr.drq.WellFormed
  hold : s.fdr.hold = true → s.fdr.drq.valid = true ∧ s.fdr.drq.ismult = true

structure Tracked : Prop extends Orderly s where
  fault : s.mr.fault = false
  phase : LoadPhase s

end

section Clock

variable {i : BackendInput} {s : Backend}

theorem LoadsPass.clrreg (h : LoadsPass i s) : Execute.clrreg (ex i s) s.er = false := by
  cases hl : fdLoad s with
  | true => simp [Execute.clrreg, h.pass hl]
  | false =>
    have hv : ((ex i s).fdui.valid && (Execute.drq (ex i s)).blocks) = false := hl
    rw [Execute.clrreg, Bool.and_right_comm, hv, Bool.false_and]

/-- A load that leaves completes. -/
theorem LoadsPass.completes (h : LoadsPass i s) (hl : fdLoad s = true)
    (hb : executeBusy i s = false) : Execute.completes (ex i s) s.er = true := by
  have hv : (ex i s).fdui.valid = true := by
    simp only [fdLoad, Bool.and_eq_true] at hl
    exact hl.1
  have hbi : Execute.busyInt (ex i s) s.er = false := by
    simp only [executeBusy, Execute.busy, Bool.or_eq_false_iff] at hb
    exact hb.1
  simp [Execute.completes, Execute.processed, hv, hbi, h.pass hl]

/-- Only answers of the bus use the load port. -/
theorem LoadsPass.mregwe (h : LoadsPass i s) :
    mregwe i s = ((busIn i s).ack && Memory.tagLoad (busIn i s).tag) := by
  have hclr : (access i s).clrreg = false := h.clrreg
  simp [Backend.mregwe, Memory.mregwe, Memory.clears, hclr]

theorem LoadsPass.mreg (h : LoadsPass i s) : mreg i s = Memory.tagReg (busIn i s).tag := by
  have hclr : (access i s).clrreg = false := h.clrreg
  simp [Backend.mreg, Memory.mreg, Memory.clears, hclr]

theorem requests_of_ack (h : (busIn i s).ack = true) :
    ∃ rest, requests s = (busIn i s).tag :: rest := by
  cases hb : s.bus with
  | nil => simp [busIn, hb] at h
  | cons t rest =>
    exact ⟨rest ++ if s.mr.wbStb then [s.mr.wbTago] else [], by simp [requests, busIn, hb]⟩

theorem loads_of_mregwe (hc : LoadsPass i s) (h : mregwe i s = true) :
    ∃ rest, loads s = (busIn i s).tag :: rest := by
  rw [hc.mregwe, Bool.and_eq_true] at h
  obtain ⟨rest, hr⟩ := requests_of_ack h.1
  exact ⟨rest.filter Memory.tagLoad, by rw [loads, hr, List.filter_cons_of_pos h.2]⟩

theorem loads_next (hc : LoadsPass i s) : loads (next i s) =
    (if mregwe i s then (loads s).tail else loads s) ++ (queued i s).filter Memory.tagLoad := by
  rw [loads, requests_next, List.filter_append]
  congr 1
  rw [hc.mregwe]
  cases hack : (busIn i s).ack with
  | false => rfl
  | true =>
    obtain ⟨rest, hr⟩ := requests_of_ack hack
    cases ht : Memory.tagLoad (busIn i s).tag with
    | true => simp [loads, hr, ht]
    | false => simp [loads, hr, ht]

theorem Tracked.load_fields (h : Tracked s) (hl : fdLoad s = true) :
    s.fdr.drq.memoryAccess = true ∧ s.fdr.drq.memoryWrite = false ∧ s.fdr.drq.regwe = false ∧
      s.fdr.drq.copEn = false := by
  simp only [fdLoad, Bool.and_eq_true] at hl
  have hwf := h.fd hl.1
  have hb := hl.2
  simp only [hwf.blocks, Bool.and_eq_true, Bool.not_eq_true'] at hb
  have hmem := hwf.memory hb.1
  exact ⟨hb.1, hb.2, hmem.1, hmem.2.1⟩

/-- A load in front of execute waits for the bus only. -/
theorem Tracked.executeBusy_load (h : Tracked s) (hc : LoadsPass i s) (hl : fdLoad s = true) :
    mregwe i s = false ∧ executeBusy i s = Memory.busy (busIn i s) s.mr := by
  have hw : mregwe i s = false := by
    cases h.phase with
    | idle hloads hfd hdirty => rw [hfd] at hl; cases hl
    | flying t hloads hfd hdirty hreg => rw [hfd] at hl; cases hl
    | ready hloads hfd hdirty hreg =>
      by_contra hw
      obtain ⟨rest, hr⟩ := loads_of_mregwe hc (by simpa using hw)
      rw [hloads] at hr
      cases hr
  obtain ⟨hmem, -, -, hcopEn⟩ := h.load_fields hl
  have hcop : Execute.copEn (ex i s) s.er = false := by
    have : (Execute.drq (ex i s)).copEn = false := hcopEn
    simp [Execute.copEn, this]
  have hhold : s.fdr.hold = false := by
    by_contra hh
    obtain ⟨hv, hm⟩ := h.hold (by simpa using hh)
    have := ((h.fd hv).mult hm).2.2.1
    rw [hmem] at this
    cases this
  refine ⟨hw, ?_⟩
  have hwb : (ex i s).wbBusy = false := by
    show wbBusy i s = false
    simp [wbBusy, Writeback.busy, hw]
  have hh : (ex i s).fdui.r.hold = false := hhold
  simp only [executeBusy, Execute.busy, Execute.busyInt, hcop, hwb, hh, Bool.false_and,
    Bool.or_false]
  rfl

/-- The load is queued in the clock in which it leaves. -/
theorem queued_loads (h : Tracked s) (hc : LoadsPass i s) :
    (queued i s).filter Memory.tagLoad =
      if fdLoad s && !executeBusy i s then [Memory.tag (access i s)] else [] := by
  have hwe : (access i s).dataWriteenable = s.fdr.drq.memoryWrite := rfl
  cases hl : fdLoad s with
  | true =>
    obtain ⟨hmem, hmw, -, -⟩ := h.load_fields hl
    have hacc : (access i s).dataAccess = true := by
      have hp : Execute.passes (executeIn i s false) s.er = .one := hc.pass hl
      simp only [fdLoad, Bool.and_eq_true] at hl
      show Execute.dataAccess (executeIn i s false) s.er = true
      simp only [Execute.dataAccess, hp, Bool.and_eq_true]
      exact ⟨⟨hl.1, rfl⟩, hmem⟩
    rw [(h.executeBusy_load hc hl).2, queued, hacc]
    cases Memory.busy (busIn i s) s.mr with
    | true => rfl
    | false => simp [Memory.tagLoad_tag, hwe, hmw]
  | false =>
    rw [Bool.false_and, if_neg Bool.false_ne_true, queued]
    split
    · rename_i hq
      have hacc : Execute.dataAccess (executeIn i s false) s.er = true := by
        simp only [Bool.and_eq_true] at hq
        exact hq.2
      have hmw : s.fdr.drq.memoryWrite = true := by
        simp only [Execute.dataAccess, Bool.and_eq_true] at hacc
        have hv : s.fdr.drq.valid = true := hacc.1.1
        have hm : s.fdr.drq.memoryAccess = true := hacc.2
        simpa [fdLoad, (h.fd hv).blocks, hv, hm] using hl
      simp [Memory.tagLoad_tag, hwe, hmw]
    · rfl

theorem fdLoad_next : fdLoad (next i s) =
    if executeBusy i s then fdLoad s else isBlocking i s := by
  unfold fdLoad
  rw [fdr_drq_next]
  cases hb : executeBusy i s with
  | true => rfl
  | false =>
    simp only [isBlocking, flushfd, hb]
    cases s.dr.valid <;> cases s.dr.blocks <;> cases jump i s <;> cases trap i s <;>
      cases allvalid i s <;> rfl

/-- No second load gets past the scoreboard. -/
theorem isBlocking_of_dirty (h : s.dirty = true) : isBlocking i s = false := by
  by_contra hb
  simp only [isBlocking, allvalid, h, Bool.not_eq_false, Bool.and_eq_true, Bool.not_eq_true'] at hb
  obtain ⟨⟨⟨⟨⟨hv, hbl⟩, -⟩, -⟩, -, hcan⟩, -⟩ := hb
  simp [hv, hbl] at hcan

theorem dirty_next (h : Tracked s) : (next i s).dirty =
    ((isBlocking i s && !s.dirty || s.dirty) && !cleans i s) := by
  show (((isBlocking i s && !s.dirty) || s.dirty) && !cleans i s && !s.mr.fault) = _
  rw [h.fault]
  simp

theorem Tracked.loadPhase_next (h : Tracked s) (hc : LoadsPass i s) : LoadPhase (next i s) := by
  have hloads := loads_next hc
  rw [queued_loads h hc] at hloads
  have hdirty := dirty_next (i := i) h
  have hreg : (next i s).dirtyReg = if isBlocking i s && !s.dirty then s.dr.sra2 else s.dirtyReg :=
    rfl
  have hfd := fdLoad_next (i := i) (s := s)
  cases h.phase with
  | idle hl hf hd =>
    have hw : mregwe i s = false := by
      by_contra hw
      obtain ⟨rest, hr⟩ := loads_of_mregwe hc (by simpa using hw)
      rw [hl] at hr
      cases hr
    have hclean : cleans i s = false := by simp [cleans, hw]
    rw [hl, hw, hf] at hloads
    rw [hd, hclean] at hdirty
    have hl' : loads (next i s) = [] := by simpa using hloads
    cases hb : isBlocking i s with
    | false =>
      refine .idle hl' ?_ (by simpa [hb] using hdirty)
      rw [hfd, hb, hf]
      simp
    | true =>
      have hnb : executeBusy i s = false := by
        simp only [isBlocking, Bool.and_eq_true, Bool.not_eq_true'] at hb
        exact hb.1.1.1.2
      refine .ready hl' ?_ (by simpa [hb] using hdirty) ?_
      · rw [hfd, hnb, hb]
        rfl
      · rw [hreg, hb, hd, fdr_drq_next, hnb]
        rfl
  | ready hl hf hd hr =>
    have hnb := isBlocking_of_dirty (i := i) hd
    obtain ⟨hw, -⟩ := h.executeBusy_load hc hf
    have hclean : cleans i s = false := by simp [cleans, hw]
    have hd' : (next i s).dirty = true := by simp [hdirty, hd, hclean]
    have hr' : (next i s).dirtyReg = s.dirtyReg := by simp [hreg, hd]
    rw [hl, hw, hf] at hloads
    rw [hnb, hf] at hfd
    cases hb : executeBusy i s with
    | true =>
      refine .ready (by simpa [hb] using hloads) (by simpa [hb] using hfd) hd' ?_
      rw [hr', hr, fdr_drq_next, hb]
      rfl
    | false =>
      refine .flying (Memory.tag (access i s)) (by simpa [hb] using hloads)
        (by simpa [hb] using hfd) hd' ?_
      rw [hr', hr, Memory.tagReg_tag]
      rfl
  | flying t hl hf hd hr =>
    have hnb := isBlocking_of_dirty (i := i) hd
    have hr' : (next i s).dirtyReg = s.dirtyReg := by simp [hreg, hd]
    have hf' : fdLoad (next i s) = false := by rw [hfd, hnb, hf]; simp
    rw [hl, hf] at hloads
    cases hw : mregwe i s with
    | true =>
      obtain ⟨rest, hrest⟩ := loads_of_mregwe hc hw
      have ht : t = (busIn i s).tag := by
        rw [hl] at hrest
        exact (List.cons.inj hrest).1
      have hclean : cleans i s = true := by
        simp [cleans, hw, hd, hr, hc.mreg, ht]
      exact .idle (by simpa [hw] using hloads) hf' (by simp [hdirty, hclean])
    | false =>
      have hclean : cleans i s = false := by simp [cleans, hw]
      exact .flying t (by simpa [hw] using hloads) hf' (by simp [hdirty, hd, hclean])
        (by rw [hr', hr])

theorem hold_next : (next i s).fdr.hold =
    if flushfd i s || !allvalid i s then false
    else if Execute.clrhold (ex i s) s.er then s.dr.valid && s.dr.ismult
    else if executeBusy i s then s.fdr.hold
    else if s.dr.valid then s.dr.ismult else s.fdr.hold := rfl

theorem passes_of_hold_next (hh : (next i s).fdr.hold = true) :
    flushfd i s = false ∧ allvalid i s = true := by
  rw [hold_next] at hh
  constructor
  · by_contra hf
    simp [(Bool.not_eq_false _).mp hf] at hh
  · by_contra ha
    simp [(Bool.not_eq_true _).mp ha] at hh

/-- Where nothing is flushed, only the multiplier clears the hold. -/
theorem clrhold_of_flushfd (hfl : flushfd i s = false) :
    Execute.clrhold (ex i s) s.er = i.multValid := by
  have hjump : jump i s = false := by
    simp only [flushfd, Bool.or_eq_false_iff] at hfl
    exact hfl.1
  have hj : (s.er.jump && (ex i s).fdui.valid || s.er.trapq) = false := hjump
  rw [Execute.clrhold, Bool.or_assoc, hj, Bool.or_false]
  rfl

theorem Orderly.hold_next (h : Orderly s) (hmult : misheld i s = false)
    (hh : (next i s).fdr.hold = true) :
    (next i s).fdr.drq.valid = true ∧ (next i s).fdr.drq.ismult = true := by
  have hfl := passes_of_hold_next hh
  rw [Backend.hold_next, hfl.1, hfl.2, clrhold_of_flushfd hfl.1] at hh
  rw [fdr_drq_next, hfl.1, hfl.2]
  cases hm : i.multValid with
  | true =>
    -- the flag is that of the multiply in decode, which comes in front of execute or stays behind
    have hdr : (s.dr.valid && s.dr.ismult) = true := by simpa [hm] using hh
    cases hb : executeBusy i s with
    | false => simpa using hdr
    | true =>
      have hm' : (ex i s).multValid = true := hm
      have hint : Execute.busyInt (ex i s) s.er = true := by
        simpa [executeBusy, Execute.busy, hm'] using hb
      have hfront : (s.fdr.drq.valid && s.fdr.drq.ismult) = true := by
        simpa [misheld, hm, hint, hfl, hdr] using hmult
      simpa using hfront
  | false =>
    cases hb : executeBusy i s with
    | true => exact h.hold (by simpa [hm, hb] using hh)
    | false =>
      have hold : s.fdr.hold = false := by
        have hm' : (ex i s).multValid = false := hm
        simp only [executeBusy, Execute.busy, hm', Bool.not_false, Bool.and_true,
          Bool.or_eq_false_iff] at hb
        exact hb.2
      cases hv : s.dr.valid with
      | true => simpa [hm, hb, hv] using hh
      | false => simp [hm, hb, hv, hold] at hh

theorem executeBusy_processed (hb : executeBusy i s = true)
    (hp : Execute.processed (ex i s) s.er = true) : s.fdr.hold = true := by
  simp only [Execute.processed, Bool.and_eq_true, Bool.not_eq_true'] at hp
  simp only [executeBusy, Execute.busy, hp.2, Bool.false_or, Bool.and_eq_true] at hb
  exact hb.1

/-- Only a multiply is processed and stays. -/
theorem Orderly.held (h : Orderly s) (hb : executeBusy i s = true)
    (hp : Execute.processed (ex i s) s.er = true) :
    s.fdr.drq.ismult = true ∧ s.fdr.drq.WellFormed := by
  obtain ⟨hv, hm⟩ := h.hold (executeBusy_processed hb hp)
  exact ⟨hm, h.fd hv⟩

theorem Orderly.next (h : Orderly s) (hmult : misheld i s = false) : Orderly (next i s) where
  dr := decodeNext_wellFormed h.dr
  fd := by
    rw [fdr_drq_next]
    split
    · exact h.fd
    · exact fun _ => ⟨h.dr.blocks, h.dr.memory, h.dr.mult⟩
  hold := h.hold_next hmult

/-- One clock keeps the loads on the books. -/
theorem Tracked.next (h : Tracked s) (hc : LoadsPass i s) : Tracked (next i s) where
  toOrderly := h.toOrderly.next hc.mult
  fault := by
    show (Memory.next _ _ _).fault = false
    unfold Memory.next
    split <;> rfl
  phase := h.loadPhase_next hc

theorem Reset.orderly (h : Reset s) : Orderly s where
  dr := by
    obtain ⟨dr, hdr⟩ := h.dr
    rw [hdr]
    exact decodeFlush_wellFormed dr
  fd := fun hv => by
    rw [h.fdr.valid] at hv
    cases hv
  hold := fun hh => by
    rw [h.fdr.hold] at hh
    cases hh

theorem Reset.tracked (h : Reset s) : Tracked s where
  toOrderly := h.orderly
  fault := h.mr.fault
  phase :=
    .idle (by simp [loads, requests, h.bus, h.mr.stb]) (by simp [fdLoad, h.fdr.valid]) h.dirty

end Clock

end Backend

end Xtc
