import Xtc.Core.Scoreboard

/-!
# Ledger — which instruction a register write belongs to

Every instruction that enters operand fetch gets a number, the clock of its entry.  The ledger
follows the number with the instruction: to its result in the execute registers, and to its request
in the memory stage and on the bus.
-/

namespace Xtc

open Backend

/-- Bookkeeping beside the registers; nothing in the design reads it. -/
structure Ledger where
  clock : Nat
  /-- The instruction in front of execute. -/
  fdId : Nat
  /-- The instruction whose result is in the execute registers. -/
  erId : Nat
  /-- The instructions behind the unanswered requests, oldest first. -/
  owners : List Nat

def Ledger.start : Ledger := ⟨0, 0, 0, []⟩

structure Traced where
  core : Backend
  ledger : Ledger

namespace Traced

/-- The instruction in front of execute passes its condition and leaves a result. -/
def completes (i : BackendInput) (t : Traced) : Bool :=
  Execute.completes (ex i t.core) t.core.er

def next (i : BackendInput) (t : Traced) : Traced where
  core := Backend.next i t.core
  ledger :=
    { clock := t.ledger.clock + 1
      fdId := if executeBusy i t.core then t.ledger.fdId else t.ledger.clock + 1
      erId := if completes i t then t.ledger.fdId else t.ledger.erId
      owners :=
        (if (busIn i t.core).ack then t.ledger.owners.tail else t.ledger.owners) ++
          (queued i t.core).map fun _ => t.ledger.fdId }

/-- The instruction on whose behalf the register bank is written in this clock. -/
def writer (i : BackendInput) (t : Traced) : Nat :=
  if mregwe i t.core then
    if Memory.clears (access i t.core) (busIn i t.core) t.core.mr then t.ledger.fdId
    else t.ledger.owners.headD 0
  else t.ledger.erId

def WriteOf (id : Nat) (i : BackendInput) (t : Traced) : Prop :=
  (rbw i t.core).we = true ∧ writer i t = id

structure Reset (t : Traced) : Prop where
  core : t.core.Reset
  ledger : t.ledger = Ledger.start

end Traced

/-! ## Runs -/

section Run

variable (t₀ : Traced) (inputs : Nat → BackendInput)

abbrev traced (n : Nat) : Traced := Run.states Traced.next t₀ inputs n

variable {t₀ : Traced}

theorem traced_core_succ (n : Nat) : (traced t₀ inputs (n + 1)).core =
    Backend.next (inputs n) (traced t₀ inputs n).core := rfl

theorem traced_tracked {inputs : Nat → BackendInput} (h₀ : t₀.Reset)
    (hok : ∀ n, LoadsPass (inputs n) (traced t₀ inputs n).core) (n : Nat) :
    Tracked (traced t₀ inputs n).core :=
  Run.invariant (fun t : Traced => Tracked t.core) (fun i t => LoadsPass i t.core)
    h₀.core.tracked (fun _ _ hc h => h.next hc) n fun k _ => hok k

theorem traced_clock (h₀ : t₀.Reset) (n : Nat) : (traced t₀ inputs n).ledger.clock = n := by
  induction n with
  | zero => show t₀.ledger.clock = 0; rw [h₀.ledger]; rfl
  | succ n ih => show (traced t₀ inputs n).ledger.clock + 1 = n + 1; rw [ih]

theorem traced_fdId_succ (h₀ : t₀.Reset) (n : Nat) : (traced t₀ inputs (n + 1)).ledger.fdId =
    if executeBusy (inputs n) (traced t₀ inputs n).core then (traced t₀ inputs n).ledger.fdId
    else n + 1 := by
  show (if executeBusy (inputs n) (traced t₀ inputs n).core then (traced t₀ inputs n).ledger.fdId
    else (traced t₀ inputs n).ledger.clock + 1) = _
  rw [traced_clock inputs h₀]

theorem traced_fdId_le (h₀ : t₀.Reset) (n : Nat) : (traced t₀ inputs n).ledger.fdId ≤ n := by
  induction n with
  | zero => show t₀.ledger.fdId ≤ 0; rw [h₀.ledger]; exact le_rfl
  | succ n ih =>
    rw [traced_fdId_succ inputs h₀]
    split <;> omega

theorem traced_fdId_mono (h₀ : t₀.Reset) {m n : Nat} (h : m ≤ n) :
    (traced t₀ inputs m).ledger.fdId ≤ (traced t₀ inputs n).ledger.fdId := by
  induction n, h using Nat.le_induction with
  | base => exact le_rfl
  | succ n _ ih =>
    rw [traced_fdId_succ inputs h₀]
    have := traced_fdId_le inputs h₀ n
    split <;> omega

theorem traced_frozen (h₀ : t₀.Reset) {m n k : Nat}
    (hid : (traced t₀ inputs m).ledger.fdId = (traced t₀ inputs n).ledger.fdId) (hmk : m ≤ k)
    (hkn : k < n) : executeBusy (inputs k) (traced t₀ inputs k).core = true := by
  by_contra hb
  have hsucc := traced_fdId_succ inputs h₀ k
  rw [if_neg hb] at hsucc
  have hn := traced_fdId_mono inputs h₀ (show k + 1 ≤ n from hkn)
  have hm := traced_fdId_le inputs h₀ m
  omega

theorem traced_drq_frozen (h₀ : t₀.Reset) {m n : Nat} (hmn : m ≤ n)
    (hid : (traced t₀ inputs m).ledger.fdId = (traced t₀ inputs n).ledger.fdId) :
    (traced t₀ inputs n).core.fdr.drq = (traced t₀ inputs m).core.fdr.drq := by
  induction n, hmn using Nat.le_induction with
  | base => rfl
  | succ n hmn ih =>
    have hb := traced_frozen inputs h₀ hid hmn (Nat.lt_succ_self n)
    have hid' : (traced t₀ inputs m).ledger.fdId = (traced t₀ inputs n).ledger.fdId := by
      rw [hid, traced_fdId_succ inputs h₀, if_pos hb]
    rw [traced_core_succ, fdr_drq_next, if_pos hb, ih hid']

/-- A result waiting in the execute registers was left by an instruction that completed, and none
has completed since. -/
theorem traced_erId (h₀ : t₀.Reset) (n : Nat)
    (hwe : (traced t₀ inputs n).core.er.regwe = true) :
    ∃ c < n, (traced t₀ inputs c).completes (inputs c) = true ∧
      (traced t₀ inputs c).ledger.fdId = (traced t₀ inputs n).ledger.erId ∧
      ∀ k, c < k → k < n → (traced t₀ inputs k).completes (inputs k) = false := by
  induction n with
  | zero =>
    have hr : t₀.core.er.regwe = false := h₀.core.er.regwe
    have hwe' : t₀.core.er.regwe = true := hwe
    rw [hr] at hwe'
    cases hwe'
  | succ n ih =>
    have hid : (traced t₀ inputs (n + 1)).ledger.erId =
        if (traced t₀ inputs n).completes (inputs n) then (traced t₀ inputs n).ledger.fdId
        else (traced t₀ inputs n).ledger.erId := rfl
    cases hc : (traced t₀ inputs n).completes (inputs n) with
    | true =>
      refine ⟨n, Nat.lt_succ_self n, hc, ?_, fun k hk hk' => by omega⟩
      rw [hid, hc]
      rfl
    | false =>
      have hprev : (traced t₀ inputs n).core.er.regwe = true := by
        have hnext : (traced t₀ inputs (n + 1)).core.er.regwe =
            if (traced t₀ inputs n).completes (inputs n) then
              (traced t₀ inputs n).core.fdr.drq.regwe
            else wbBusy (inputs n) (traced t₀ inputs n).core &&
              (traced t₀ inputs n).core.er.regwe := rfl
        rw [hnext, hc] at hwe
        simp only [Bool.false_eq_true, if_false, Bool.and_eq_true] at hwe
        exact hwe.2
      obtain ⟨c, hcn, hcomp, hcid, hlast⟩ := ih hprev
      refine ⟨c, by omega, hcomp, ?_, ?_⟩
      · rw [hid, hc, hcid]
        rfl
      · intro k hk hk'
        rcases Nat.lt_succ_iff_lt_or_eq.mp hk' with h | h
        · exact hlast k hk h
        · rw [h]
          exact hc

/-- An unanswered load belongs to a load that left for the memory stage. -/
theorem traced_owners (h₀ : t₀.Reset)
    (hok : ∀ n, LoadsPass (inputs n) (traced t₀ inputs n).core) (n : Nat) :
    List.Forall₂ (fun tag id => Memory.tagLoad tag = true →
        ∃ c < n, (traced t₀ inputs c).ledger.fdId = id ∧ fdLoad (traced t₀ inputs c).core = true ∧
          executeBusy (inputs c) (traced t₀ inputs c).core = false)
      (requests (traced t₀ inputs n).core) (traced t₀ inputs n).ledger.owners := by
  induction n with
  | zero =>
    have hreq : requests t₀.core = [] := by simp [requests, h₀.core.bus, h₀.core.mr.stb]
    have hown : t₀.ledger.owners = [] := by rw [h₀.ledger]; rfl
    show List.Forall₂ _ (requests t₀.core) t₀.ledger.owners
    rw [hreq, hown]
    exact .nil
  | succ n ih =>
    have hown : (traced t₀ inputs (n + 1)).ledger.owners =
        (if (busIn (inputs n) (traced t₀ inputs n).core).ack then
          (traced t₀ inputs n).ledger.owners.tail else (traced t₀ inputs n).ledger.owners) ++
          (queued (inputs n) (traced t₀ inputs n).core).map
            fun _ => (traced t₀ inputs n).ledger.fdId := rfl
    rw [traced_core_succ, requests_next, hown]
    have hold : List.Forall₂ (fun tag id => Memory.tagLoad tag = true →
        ∃ c < n + 1, (traced t₀ inputs c).ledger.fdId = id ∧
          fdLoad (traced t₀ inputs c).core = true ∧
          executeBusy (inputs c) (traced t₀ inputs c).core = false)
        (requests (traced t₀ inputs n).core) (traced t₀ inputs n).ledger.owners := by
      refine ih.imp fun tag id h htag => ?_
      obtain ⟨c, hc, hrest⟩ := h htag
      exact ⟨c, by omega, hrest⟩
    refine List.rel_append ?_ ?_
    · split
      · rw [← List.drop_one, ← List.drop_one]
        exact List.forall₂_drop 1 hold
      · exact hold
    · rw [List.forall₂_map_right_iff, List.forall₂_same]
      intro tag hmem htag
      have hload := queued_loads (traced_tracked h₀ hok n) (hok n)
      have hne : tag ∈ (queued (inputs n) (traced t₀ inputs n).core).filter Memory.tagLoad :=
        List.mem_filter.mpr ⟨hmem, htag⟩
      rw [hload] at hne
      split at hne
      · rename_i hl
        simp only [Bool.and_eq_true, Bool.not_eq_true'] at hl
        exact ⟨n, Nat.lt_succ_self n, rfl, hl.1, hl.2⟩
      · cases hne

/-- An answer of the bus is written on behalf of a load that left for the memory stage. -/
theorem traced_writer_load (h₀ : t₀.Reset)
    (hok : ∀ n, LoadsPass (inputs n) (traced t₀ inputs n).core) (n : Nat)
    (hw : mregwe (inputs n) (traced t₀ inputs n).core = true) :
    ∃ c < n, (traced t₀ inputs c).ledger.fdId = (traced t₀ inputs n).writer (inputs n) ∧
      fdLoad (traced t₀ inputs c).core = true ∧
      executeBusy (inputs c) (traced t₀ inputs c).core = false := by
  have hclr : (access (inputs n) (traced t₀ inputs n).core).clrreg = false := (hok n).clrreg
  have hack := hw
  rw [(hok n).mregwe, Bool.and_eq_true] at hack
  obtain ⟨rest, hreq⟩ := requests_of_ack hack.1
  have hown := traced_owners inputs h₀ hok n
  rw [hreq] at hown
  cases howners : (traced t₀ inputs n).ledger.owners with
  | nil => rw [howners] at hown; cases hown
  | cons id ids =>
    rw [howners] at hown
    cases hown with
    | cons hhead _ =>
      obtain ⟨c, hc, hid, hrest⟩ := hhead hack.2
      refine ⟨c, hc, ?_, hrest⟩
      rw [hid, Traced.writer, hw, Memory.clears, hclr, howners]
      simp

end Run

end Xtc
