import Xtc.Lib.Due
import Xtc.Sdram.Transfers

/-!
# Progress — how long a request waits

A request is answered within 39 clocks, whatever the bus asks for after it.  Every entry of the
queue has a deadline that comes one clock closer in each clock, but in one in which the refresh
timer runs out.
-/

namespace Xtc

namespace Sdram

/-! ## Deadlines -/

namespace State

/-- The clocks until the request in the slot starts, if the timer does not run out: with a refresh
due, with the request in the open row, with a read. -/
def rank (x : State) (rf same rd : Bool) : Nat :=
  match x with
  | idle => if rf then 11 else 4
  | rf0 => if rf then 17 else 10
  | rf1 => if rf then 16 else 9
  | rf2 => if rf then 15 else 8
  | rf3 => if rf then 14 else 7
  | rf4 => if rf then 13 else 6
  | rf5 => if rf then 12 else 5
  | ra0 => if rf then 16 else if same then 3 else 9
  | ra1 => if rf then 15 else if same then 2 else 8
  | ra2 => if rf then 14 else if same then 1 else 7
  | dr0 => if rf then 13 else 6
  | dr1 => if rf then 12 else 5
  | wr0 => if rf then 16 else if same then 2 else 9
  | wr3 => if rf then 15 else if same then 1 else 8
  | wr2 => if rf then 14 else 7
  | rd0 | rd3 | rd5 => if rd && same then 2 else if rf then 17 else if same then 4 else 10
  | rd1 | rd4 => if rd && same then 1 else if rf then 16 else if same then 3 else 9
  | rd6 => if rf then 15 else if same then 2 else 8
  | _ => 1

/-- The clocks until what is read or written is answered. -/
def moving : State → List Nat
  | rd0 => [5]
  | rd1 | rd4 | wr0 => [4]
  | rd3 | rd5 => [3, 5]
  | rd6 | wr3 => [3]
  | _ => []

theorem rank_le : ∀ x rf same rd, rank x rf same rd ≤ 17 := by
  intro x
  cases x <;> decide

theorem rank_pos : ∀ x rf same rd, 0 < rank x rf same rd := by
  intro x
  cases x <;> decide

end State

namespace Regs

def rank (s : Regs) : Nat := s.rstate.rank s.rfPending s.sameRow s.rdPending

def answering (s : Regs) : List Nat :=
  (if s.dataOutValid then [2] else []) ++ s.rstate.moving

def waiting (s : Regs) : List Nat := if s.pending then [5 + s.rank] else []

def dues (s : Regs) : List Nat := s.answering ++ s.waiting

def delay (s : Regs) : Nat := if s.expires then 17 else 0

variable {i : Input} {captured : Half} {s s' : Regs}

/-! What waits in the slot stays there. -/

theorem Clock.reqAddrQ (h : Clock i captured s s') :
    s'.reqAddrQ = (prepared i s).reqAddrQ := by
  cases h <;> rfl

theorem Clock.sameRow (h : Clock i captured s s') (ht : Tidy s) (hp : s.pending = true)
    (hidle : s.rstate ≠ .idle) : s'.sameRow = s.sameRow := by
  have haddr : s'.reqAddrQ = s.reqAddrQ := by
    rw [h.reqAddrQ]
    simp [takesRead, takesWrite, hp]
  rw [Regs.sameRow, Regs.sameRow, addrRow, addrBank, addrRow, addrBank, haddr, h.actRow hidle,
    h.bank ht hidle]

theorem Clock.rfPending (h : Clock i captured s s') (hidle : s.rstate ≠ .idle) :
    s'.rfPending = (s.rfPending || s.expires) := by
  cases h with
  | idle h => exact absurd h hidle
  | rest | stay | close | read | write | wr0 | wr2 | wr3Stay | wr3Close | wr3Read | wr3Write
  | wr3Refresh | rd0 | again | last | capture | rd6 => exact prepared_rfPending i s

theorem Clock.rfCounter (h : Clock i captured s s') :
    s'.rfCounter = (prepared i s).rfCounter := by
  cases h <;> rfl

/-- The deadline of the slot, along an edge that the ranks follow. -/
theorem Clock.rank (h : Clock i captured s s') (ht : Tidy s) (hp : s.pending = true)
    (hidle : s.rstate ≠ .idle) (hrd : s'.rdPending = s.rdPending)
    (hedge : s'.rstate.rank s.rfPending s.sameRow s.rdPending + 1 ≤ s.rank) :
    s'.rank + 1 ≤ s.rank + s.delay := by
  rw [Regs.rank, h.sameRow ht hp hidle, h.rfPending hidle, hrd, delay]
  cases s.expires with
  | false =>
    rw [Bool.or_false]
    exact hedge
  | true =>
    have hle := State.rank_le s'.rstate (s.rfPending || true) s.sameRow s.rdPending
    have hpos := State.rank_pos s.rstate s.rfPending s.sameRow s.rdPending
    show _ ≤ s.rstate.rank _ _ _ + 17
    omega

/-- The entries of the next clock: those that are there, and one that is taken. -/
def Flows (s s' : Regs) : Prop :=
  ∃ l new, s'.dues = l ++ new ∧
    List.Forall₂ (fun d' d => d' + 1 ≤ d + s.delay) l (s.rstate.moving ++ s.waiting)

theorem flows_of (hmoving : List.Forall₂ (fun d' d => d' + 1 ≤ d) s'.answering s.rstate.moving)
    (hslot : s.pending = true → s'.pending = true ∧ s'.rank + 1 ≤ s.rank + s.delay) :
    Flows s s' := by
  have hweak : List.Forall₂ (fun d' d => d' + 1 ≤ d + s.delay) s'.answering s.rstate.moving :=
    hmoving.imp fun d' d hle => by omega
  cases hp : s.pending with
  | false =>
    refine ⟨s'.answering, s'.waiting, rfl, ?_⟩
    rw [waiting, hp]
    simpa using hweak
  | true =>
    obtain ⟨hp', hrank⟩ := hslot hp
    refine ⟨s'.answering ++ [5 + s'.rank], [], ?_, ?_⟩
    · rw [dues, waiting, hp']
      simp
    · rw [waiting, hp]
      refine List.rel_append hweak (.cons ?_ .nil)
      omega

/-- What the edge from `x` to `y` answers; `v` says if an answer is ready. -/
def Follows (x y : State) (v : Bool) : Prop :=
  List.Forall₂ (fun d' d => d' + 1 ≤ d) ((if v then [2] else []) ++ y.moving) x.moving

instance (x y : State) (v : Bool) : Decidable (Follows x y v) := by
  unfold Follows
  infer_instance

/-- The slot is not emptied. -/
theorem Clock.goes (h : Clock i captured s s') (ht : Tidy s) {x y : State} {v : Bool}
    (hx : s.rstate = x) (hy : s'.rstate = y) (hv : s'.dataOutValid = v) (hidle : x ≠ .idle)
    (hfollows : Follows x y v)
    (hslot : s.pending = true → s'.rdPending = s.rdPending ∧ s'.wrPending = s.wrPending)
    (hedge : s.pending = true →
      y.rank s.rfPending s.sameRow s.rdPending + 1 ≤ x.rank s.rfPending s.sameRow s.rdPending) :
    Flows s s' := by
  subst hx hy hv
  refine flows_of hfollows fun hp => ?_
  obtain ⟨hrd, hwr⟩ := hslot hp
  refine ⟨?_, h.rank ht hp hidle hrd (hedge hp)⟩
  rw [pending, hrd, hwr]
  exact hp

theorem pending_prepared (hp : s.pending = true) :
    (prepared i s).rdPending = s.rdPending ∧ (prepared i s).wrPending = s.wrPending := by
  simp [takesRead, takesWrite, hp]

/-- The request in the slot starts. -/
theorem starts {x y : State} {v : Bool} {l : List Nat} {d : Nat} (hx : s.rstate = x)
    (hy : s'.rstate = y) (hv : s'.dataOutValid = v) (hd : d ≤ 5)
    (hanswering : (if v then [2] else []) ++ y.moving = l ++ [d])
    (hmoving : List.Forall₂ (fun d' d => d' + 1 ≤ d) l x.moving) (hp : s.pending = true)
    (hp' : s'.pending = false) : Flows s s' := by
  subst hx hy hv
  have hpos := State.rank_pos s.rstate s.rfPending s.sameRow s.rdPending
  refine ⟨l ++ [d], [], ?_, ?_⟩
  · rw [dues, waiting, hp', answering, hanswering]
    simp
  · rw [waiting, hp]
    refine List.rel_append (hmoving.imp fun d' d hle => by omega) (.cons ?_ .nil)
    show d + 1 ≤ 5 + s.rstate.rank _ _ _ + s.delay
    omega

theorem Clock.flows (h : Clock i captured s s') (ht : Tidy s) : Flows s s' := by
  have hclock := h
  have hvalid := prepared_dataOutValid i s
  cases h with
  | idle h =>
    refine flows_of ?_ fun hp => ⟨?_, ?_⟩
    · have hempty : (idleStep s (prepared i s)).answering = [] := by
        cases hrf : s.rfPending <;> cases hp : s.pending <;>
          simp [answering, idleStep, hrf, hp, State.moving]
      rw [hempty, h]
      exact .nil
    · show ((prepared i s).wrPending || (prepared i s).rdPending) = true
      rw [(pending_prepared hp).1, (pending_prepared hp).2]
      exact hp
    · -- the row that is opened is the row of the request
      have hsame : (idleStep s (prepared i s)).sameRow = true := by
        simp [Regs.sameRow, idleStep, addrRow, addrBank, takesRead, takesWrite, hp]
      rw [Regs.rank, Regs.rank, hsame, h]
      cases hrf : s.rfPending <;> simp [idleStep, hrf, hp, State.rank]
  | @rest after h address =>
    have hedge : s.rstate ≠ .idle ∧ Follows s.rstate after false ∧
        ∀ rf same rd, after.rank rf same rd + 1 ≤ s.rstate.rank rf same rd := by
      simp only [List.mem_cons, List.not_mem_nil, or_false, Prod.mk.injEq] at h
      rcases h with h | h | h | h | h | h | h | h | h | h <;> rw [h.1, h.2] <;> decide
    exact hclock.goes ht rfl rfl hvalid hedge.1 hedge.2.1 pending_prepared fun _ => hedge.2.2 _ _ _
  | stay h hrf hp =>
    exact hclock.goes ht (y := .ra2) h rfl hvalid (by decide) (by decide) pending_prepared
      fun hp' => absurd (hp.symm.trans hp') (by decide)
  | close h hrow =>
    have hedge : ∀ rf same rd, rf = true ∨ same = false →
        State.rank .dr0 rf same rd + 1 ≤ State.rank .ra2 rf same rd := by decide
    exact hclock.goes ht (y := .dr0) h rfl hvalid (by decide) (by decide) pending_prepared
      fun _ => hedge _ _ _ (hrow.imp id And.right)
  | wr0 h =>
    have hedge : ∀ rf same rd,
        State.rank .wr3 rf same rd + 1 ≤ State.rank .wr0 rf same rd := by decide
    exact hclock.goes ht (y := .wr3) h rfl hvalid (by decide) (by decide) pending_prepared
      fun _ => hedge _ _ _
  | wr2 h =>
    have hedge : ∀ rf same rd,
        State.rank .dr0 rf same rd + 1 ≤ State.rank .wr2 rf same rd := by decide
    exact hclock.goes ht (y := .dr0) h rfl hvalid (by decide) (by decide) pending_prepared
      fun _ => hedge _ _ _
  | wr3Stay h hrf hp =>
    exact hclock.goes ht (y := .ra2) (v := true) h rfl rfl (by decide) (by decide) pending_prepared
      fun hp' => absurd (hp.symm.trans hp') (by decide)
  | wr3Close h hrf hp hrow =>
    have hedge : ∀ rf same rd, same = false →
        State.rank .wr2 rf same rd + 1 ≤ State.rank .wr3 rf same rd := by decide
    exact hclock.goes ht (y := .wr2) (v := true) h rfl rfl (by decide) (by decide) pending_prepared
      fun _ => hedge _ _ _ hrow
  | wr3Refresh h hrf =>
    have hedge : ∀ rf same rd, rf = true →
        State.rank .wr2 rf same rd + 1 ≤ State.rank .wr3 rf same rd := by decide
    exact hclock.goes ht (y := .wr2) (v := true) h rfl rfl (by decide) (by decide)
      (fun _ => ⟨rfl, rfl⟩) fun _ => hedge _ _ _ hrf
  | rd0 h =>
    have hedge : ∀ rf same rd,
        State.rank .rd1 rf same rd + 1 ≤ State.rank .rd0 rf same rd := by decide
    exact hclock.goes ht (y := .rd1) h rfl hvalid (by decide) (by decide) pending_prepared
      fun _ => hedge _ _ _
  | last h hnone =>
    have hedge : s.rstate ≠ .idle ∧ Follows s.rstate .rd6 false ∧
        ∀ rf same rd, (rd && same) = false →
          State.rank .rd6 rf same rd + 1 ≤ s.rstate.rank rf same rd := by
      simp only [List.mem_cons, List.not_mem_nil, or_false] at h
      rcases h with h | h <;> rw [h] <;> decide
    exact hclock.goes ht rfl rfl hvalid hedge.1 hedge.2.1 pending_prepared
      fun _ => hedge.2.2 _ _ _ hnone
  | capture h =>
    have hedge : s.rstate ≠ .idle ∧ Follows s.rstate .rd4 true ∧
        ∀ rf same rd, State.rank .rd4 rf same rd + 1 ≤ s.rstate.rank rf same rd := by
      simp only [List.mem_cons, List.not_mem_nil, or_false] at h
      rcases h with h | h <;> rw [h] <;> decide
    exact hclock.goes ht rfl rfl rfl hedge.1 hedge.2.1 pending_prepared fun _ => hedge.2.2 _ _ _
  | rd6 h =>
    have hedge : ∀ rf same rd,
        State.rank .ra2 rf same rd + 1 ≤ State.rank .rd6 rf same rd := by decide
    exact hclock.goes ht (y := .ra2) (v := true) h rfl rfl (by decide) (by decide) pending_prepared
      fun _ => hedge _ _ _
  | read h hrf hrd hwr hrow =>
    have hp : s.pending = true := by simp [pending, hrd]
    refine starts (y := .rd0) (l := []) (d := 5) h rfl hvalid le_rfl rfl .nil hp ?_
    show ((prepared i s).wrPending || false) = false
    rw [(pending_prepared hp).2, hwr]
    rfl
  | write h hrf hrd hwr hrow =>
    have hp : s.pending = true := by simp [pending, hwr]
    refine starts (y := .wr0) (l := []) (d := 4) h rfl hvalid (by decide) rfl .nil hp ?_
    show (false || (prepared i s).rdPending) = false
    rw [(pending_prepared hp).1, hrd]
    rfl
  | wr3Read h hrf hrd hwr hrow =>
    have hp : s.pending = true := by simp [pending, hrd]
    refine starts (y := .rd0) (v := true) (l := [2]) (d := 5) h rfl rfl le_rfl rfl (by decide) hp ?_
    show ((prepared i s).wrPending || false) = false
    rw [(pending_prepared hp).2, hwr]
    rfl
  | wr3Write h hrf hrd hwr hrow =>
    have hp : s.pending = true := by simp [pending, hwr]
    refine starts (y := .wr0) (v := true) (l := [2]) (d := 4) h rfl rfl (by decide) rfl
      (by decide) hp
      ?_
    show (false || (prepared i s).rdPending) = false
    rw [(pending_prepared hp).1, hrd]
    rfl
  | @again after h hrd hrow =>
    have hp : s.pending = true := by simp [pending, hrd]
    have hwr : s.wrPending = false := by simpa [hrd] using ht.one
    have hedge : after.moving = [3, 5] ∧ s.rstate.moving = [4] := by
      simp only [List.mem_cons, List.not_mem_nil, or_false, Prod.mk.injEq] at h
      rcases h with h | h <;> rw [h.1, h.2] <;> decide
    refine starts (y := after) (l := [3]) (d := 5) rfl rfl hvalid le_rfl ?_ ?_ hp ?_
    · exact hedge.1
    · rw [hedge.2]
      decide
    · show ((prepared i s).wrPending || false) = false
      rw [(pending_prepared hp).2, hwr]
      rfl

end Regs

namespace System

def dues (s : System) : List Nat := (if s.wbAckO then [1] else []) ++ s.regs.dues

variable {i : SystemInput} {s s₀ : System} {inputs : Nat → SystemInput} {start : BitVec 15}
  {m m₀ : Image} {A B C : List Transfer} {W T : List WbRequest} {x : Exchange WbRequest WbAnswer}

theorem mem_dues {d : Nat} (h : d ∈ s.dues) :
    d = 1 ∨ d = 2 ∨ d ∈ s.regs.rstate.moving ∨ d = 5 + s.regs.rank := by
  unfold dues Regs.dues Regs.answering Regs.waiting at h
  simp only [List.mem_append] at h
  rcases h with h | (h | h) | h
  · split_ifs at h <;> simp_all
  · split_ifs at h <;> simp_all
  · exact .inr (.inr (.inl h))
  · split_ifs at h <;> simp_all

theorem moving_bounds : ∀ x : State, ∀ d ∈ x.moving, 0 < d ∧ d ≤ 5 := by
  intro x
  cases x <;> decide

theorem dues_pos {d : Nat} (h : d ∈ s.dues) : 0 < d := by
  rcases mem_dues h with h | h | h | h
  · omega
  · omega
  · exact (moving_bounds _ d h).1
  · omega

theorem dues_le {d : Nat} (h : d ∈ s.dues) : d ≤ 22 := by
  have hrank : s.regs.rank ≤ 17 := State.rank_le _ _ _ _
  rcases mem_dues h with h | h | h | h
  · omega
  · omega
  · exact (moving_bounds _ d h).2.trans (by decide)
  · omega

theorem Ready.closer (h : Ready s) : ∃ l new, (System.next i s).dues = l ++ new ∧
    List.Forall₂ (fun d' d => d' + 1 ≤ d + s.regs.delay) l (s.dues.drop s.wbAckO.toNat) := by
  obtain ⟨l, new, hdues, hall⟩ := (h.clock (i := i)).flows h.toTidy
  have hdrop : s.dues.drop s.wbAckO.toNat = s.regs.dues := by
    unfold dues
    cases s.wbAckO <;> rfl
  refine ⟨(if s.regs.dataOutValid then [1] else []) ++ l, new, ?_, ?_⟩
  · rw [List.append_assoc, ← hdues]
    rfl
  · rw [hdrop, Regs.dues, Regs.answering, List.append_assoc]
    refine List.rel_append ?_ hall
    cases s.regs.dataOutValid with
    | false => exact .nil
    | true => exact .cons (by omega) .nil

/-! The queue of the bus. -/

theorem Acked.length (h : Acked s A) : A.length = s.wbAckO.toNat := by
  cases h with
  | empty h => rw [h]; rfl
  | one h => rw [h]; rfl

theorem Stage.length_moving (h : Stage m s B C W T) :
    C.length + W.length = s.regs.rstate.moving.length := by
  rcases h with ⟨-, hreads, hwrites, -, -⟩
  cases hreads with
  | rest hs =>
    cases hwrites with
    | rest h0 h3 =>
      revert hs h0 h3
      generalize s.regs.rstate = x
      cases x <;> decide
    | first hs | second hs => rw [hs]; rfl
  | first hs | last hs =>
    rw [hs, (hwrites.eq_nil (by rw [hs]; decide)).1]
    rfl
  | second hs | again hs =>
    have hW : s.regs.rstate ∉ [.wr0, .wr3] := by
      revert hs
      generalize s.regs.rstate = x
      cases x <;> decide
    rw [(hwrites.eq_nil hW).1]
    revert hs
    generalize s.regs.rstate = x
    cases x <;> simp [State.moving]

theorem Stage.length (h : Stage m s B C W T) :
    (B ++ C).length + (W ++ T).length = s.regs.dues.length := by
  have hB : B.length = (if s.regs.dataOutValid then [2] else []).length := by
    cases h.valid with
    | empty hv | write hv | read hv => rw [hv]; rfl
  have hT : T.length = s.regs.waiting.length := by
    cases h.waits with
    | empty hp => rw [Regs.waiting, hp]; rfl
    | one hslot => rw [Regs.waiting, pending_of_slot hslot]; rfl
  have hCW : C.length + W.length = s.regs.rstate.moving.length := h.length_moving
  rw [Regs.dues, Regs.answering]
  simp only [List.length_append] at *
  omega

/-! The run. -/

section Run

theorem length_waiting (h : Served m₀ x s) : x.waiting.length = s.dues.length := by
  obtain ⟨m, A, B, C, W, T, hA, hstage, hserves⟩ := h
  have hlength := hstage.length
  have hack : A.length = (if s.wbAckO then [1] else []).length := by
    rw [hA.length]
    cases s.wbAckO <;> rfl
  rw [hserves.waiting, dues]
  simp only [List.length_append, List.length_map] at *
  omega

theorem isSome_answer (s : System) : s.wbo.answer.isSome = s.wbAckO := by
  unfold wbo Miso.answer Miso.responds
  cases s.wbAckO <;> rfl

theorem stray_run (hstart : 140 ≤ start.toNat) (h : Reset start s₀)
    (inputs : Nat → SystemInput) (n : Nat) :
    (exchange s₀ inputs n).stray = [] := by
  obtain ⟨m, A, B, C, W, T, -, -, hserves⟩ := @run_served s₀ inputs start hstart h n
  exact hserves.stray

theorem ready_run (hstart : 140 ≤ start.toNat) (h : Reset start s₀)
    (inputs : Nat → SystemInput) {n : Nat} (hn : start.toNat ≤ n) : Ready (run s₀ inputs n) := by
  obtain ⟨n, rfl⟩ : ∃ m, n = m + 1 := ⟨n - 1, by omega⟩
  rcases run_phase hstart h inputs n with ⟨k, hinit, hk⟩ | ⟨hready, -⟩
  · have hpos := hinit.pos
    omega
  · exact hready

theorem asked_run (hstart : 140 ≤ start.toNat) (h : Reset start s₀)
    (inputs : Nat → SystemInput) (n : Nat) :
    (exchange s₀ inputs n).asked =
      Run.events (fun k => keeps (inputs k) (run s₀ inputs k)) 0 n :=
  Exchange.asked_run (stray_run hstart h inputs) n

theorem Ready.isInit (h : Ready s) : s.regs.rstate.isInit = false := by
  have hlive := h.live
  revert hlive
  generalize s.regs.rstate = x
  cases x <;> decide

theorem Ready.rfCounter_next (h : Ready s) : (System.next i s).regs.rfCounter =
    if s.regs.expires then 0 else s.regs.rfCounter + 1 := by
  rw [(h.clock (i := i)).rfCounter, Regs.prepared_rfCounter, h.isInit]
  rfl

/-- The timer runs out once in its period. -/
theorem sum_delay_le (hready : ∀ n, start.toNat ≤ n → Ready (run s₀ inputs n)) {n : Nat}
    (hn : start.toNat ≤ n) {L : Nat} (hL : L ≤ RELOAD + 1) :
    ∑ j ∈ Finset.range L, (run s₀ inputs (n + j)).regs.delay = 0 ∨
      ∑ j ∈ Finset.range L, (run s₀ inputs (n + j)).regs.delay = 17 ∧
        (run s₀ inputs (n + L)).regs.rfCounter < L := by
  induction L with
  | zero => exact .inl rfl
  | succ L ih =>
    have hnext : (run s₀ inputs (n + (L + 1))).regs.rfCounter = _ :=
      (hready (n + L) (by omega)).rfCounter_next (i := inputs (n + L))
    rw [Finset.sum_range_succ, hnext, Regs.delay]
    cases hexp : (run s₀ inputs (n + L)).regs.expires with
    | false =>
      rcases ih (by omega) with hsum | ⟨hsum, hlt⟩
      · exact .inl hsum
      · exact .inr ⟨hsum, Nat.succ_lt_succ hlt⟩
    | true =>
      have hcount : (run s₀ inputs (n + L)).regs.rfCounter = RELOAD := by
        simpa [Regs.expires] using hexp
      rcases ih (by omega) with hsum | ⟨-, hlt⟩
      · exact .inr ⟨by rw [hsum]; rfl, Nat.succ_pos L⟩
      · omega

/-- Whatever waits has 22 clocks, and 17 more if the timer runs out. -/
theorem requests_within (hstart : 140 ≤ start.toNat) (h : Reset start s₀)
    (inputs : Nat → SystemInput) {n : Nat} (hn : start.toNat ≤ n) :
    (exchange s₀ inputs n).served.length + (exchange s₀ inputs n).waiting.length ≤
      (exchange s₀ inputs (n + 39)).served.length := by
  have hready : ∀ n, start.toNat ≤ n → Ready (run s₀ inputs n) := fun n =>
    ready_run hstart h inputs
  have hsteps : ∀ m, n ≤ m → Due.Step (fun n => (run s₀ inputs n).dues)
      (fun n => (run s₀ inputs n).wbAckO.toNat) (fun n => (run s₀ inputs n).regs.delay) m :=
    fun m hm => ⟨fun d => dues_pos, (hready m (by omega)).closer⟩
  have hdelay : ∑ j ∈ Finset.range 39, (run s₀ inputs (n + j)).regs.delay ≤ 17 := by
    have := sum_delay_le hready hn (L := 39) (by decide)
    omega
  have hacks : (exchange s₀ inputs (n + 39)).served.length = _ :=
    Exchange.length_served_run (stray_run hstart h inputs) n 39
  rw [hacks, length_waiting (@run_served s₀ inputs start hstart h n)]
  simp only [isSome_answer]
  refine Nat.add_le_add_left (Due.gone_by hsteps le_rfl (D := 22) ?_ ?_) _
  · intro d hd
    exact dues_le (List.mem_of_mem_take hd)
  · omega

/-- What has been taken once the chip is initialised is answered 39 clocks later, whatever is asked
for meanwhile. -/
theorem requests_answered (hstart : 140 ≤ start.toNat) (h : Reset start s₀)
    (inputs : Nat → SystemInput) {n : Nat} (hn : start.toNat ≤ n) :
    Run.events (fun k => keeps (inputs k) (run s₀ inputs k)) 0 n <+:
      (exchange s₀ inputs (n + 39)).served.map Prod.fst := by
  have hwithin := requests_within hstart h inputs hn
  have hasked := asked_run hstart h inputs
  have hlater : Run.events (fun k => keeps (inputs k) (run s₀ inputs k)) 0 n <+:
      (exchange s₀ inputs (n + 39)).asked := by
    rw [hasked, Run.events_add]
    exact List.prefix_append _ _
  refine List.prefix_of_prefix_length_le hlater (List.prefix_append _ _) ?_
  rw [← hasked, Exchange.asked, List.length_append, List.length_map, List.length_map]
  exact hwithin

theorem requests_answered_scanning :
    Run.events (fun k => keeps (scanning k) (run (poweredUp 16384) scanning k)) 0 16384 <+:
      (exchange (poweredUp 16384) scanning (16384 + 39)).served.map Prod.fst :=
  requests_answered (by decide) (reset_poweredUp 16384) scanning (by decide)

end Run

end System

end Sdram

end Xtc
