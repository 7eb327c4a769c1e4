import Mathlib.Tactic

/-!
# Run — a clocked machine driven by a stream of inputs

`states next s inputs n` is the state after `n` clocks.  A safety result is a property that the
start has and every clock keeps; the clocks may be assumed to meet a condition of their own.  A
liveness result waits for an event that is known to come, or for a rank to go down.
-/

namespace Run

variable {σ ι : Type*}

def states (next : ι → σ → σ) (s : σ) (inputs : Nat → ι) : Nat → σ
  | 0 => s
  | n + 1 => next (inputs n) (states next s inputs n)

variable {next : ι → σ → σ} {s : σ} {inputs : Nat → ι}

@[simp] theorem states_zero : states next s inputs 0 = s := rfl

theorem states_succ (n : Nat) :
    states next s inputs (n + 1) = next (inputs n) (states next s inputs n) := rfl

theorem states_add (next : ι → σ → σ) (s : σ) (inputs : Nat → ι) (m n : Nat) :
    states next s inputs (m + n) =
      states next (states next s inputs m) (fun k => inputs (m + k)) n := by
  induction n with
  | zero => rfl
  | succ n ih => rw [← Nat.add_assoc, states_succ, ih, states_succ]

/-- The invariant rule: the clocks so far met `ok`, so the invariant holds now. -/
theorem invariant (inv : σ → Prop) (ok : ι → σ → Prop) (hinit : inv s)
    (hstep : ∀ i s, ok i s → inv s → inv (next i s)) (n : Nat)
    (hok : ∀ k < n, ok (inputs k) (states next s inputs k)) :
    inv (states next s inputs n) := by
  induction n with
  | zero => exact hinit
  | succ n ih =>
    have hn := ih fun k hk => hok k (by omega)
    exact hstep _ _ (hok n (by omega)) hn

/-! What a run shows in a stretch of clocks. -/

section Events

variable {ε : Type*} (event : Nat → Option ε)

def events (n d : Nat) : List ε := (List.range' n d).filterMap event

@[simp] theorem events_zero (n : Nat) : events event n 0 = [] := rfl

theorem events_cons (n d : Nat) :
    events event n (d + 1) = (event n).toList ++ events event (n + 1) d := by
  rw [events, events, List.range'_succ, List.filterMap_cons]
  cases event n <;> rfl

theorem events_succ (n d : Nat) :
    events event n (d + 1) = events event n d ++ (event (n + d)).toList := by
  rw [events, events, List.range'_1_concat, List.filterMap_append]
  cases h : event (n + d) <;> simp [h]

theorem events_add (n a b : Nat) :
    events event n (a + b) = events event n a ++ events event (n + a) b := by
  rw [events, events, events, ← List.range'_append_1, List.filterMap_append]

theorem length_events (n d : Nat) :
    (events event n d).length = ∑ j ∈ Finset.range d, (event (n + j)).isSome.toNat := by
  induction d with
  | zero => rfl
  | succ d ih =>
    rw [events_succ, List.length_append, ih, Finset.sum_range_succ]
    congr 1
    cases event (n + d) <;> rfl

/-- What is under way, and what enters, is what leaves and what is under way then. -/
theorem conservation (enters leaves : Nat → Option ε) (inv : Nat → List ε → Prop) {n d : Nat}
    {p : List ε} (hinit : inv n p)
    (hstep : ∀ k, n ≤ k → k < n + d → ∀ p, inv k p → ∃ p', inv (k + 1) p' ∧
      p ++ (enters k).toList = (leaves k).toList ++ p') :
    ∃ p', inv (n + d) p' ∧ p ++ events enters n d = events leaves n d ++ p' := by
  induction d with
  | zero => exact ⟨p, hinit, by simp⟩
  | succ d ih =>
    obtain ⟨p', hp', hsum⟩ := ih fun k hk hk' => hstep k hk (by omega)
    obtain ⟨p'', hp'', hsum'⟩ := hstep (n + d) (by omega) (by omega) p' hp'
    refine ⟨p'', hp'', ?_⟩
    rw [events_succ, events_succ, ← List.append_assoc, hsum, List.append_assoc, hsum',
      List.append_assoc]

/-- Where nothing enters. -/
theorem drains (leaves : Nat → Option ε) (inv : Nat → List ε → Prop) {n d : Nat}
    {p : List ε} (hinit : inv n p)
    (hstep : ∀ k, n ≤ k → k < n + d → ∀ p, inv k p → ∃ p', inv (k + 1) p' ∧
      p = (leaves k).toList ++ p') :
    ∃ p', inv (n + d) p' ∧ p = events leaves n d ++ p' := by
  obtain ⟨p', hp', hsum⟩ := conservation (fun _ => none) leaves inv hinit
    fun k hk hk' p hp => by simpa using hstep k hk hk' p hp
  refine ⟨p', hp', ?_⟩
  simpa [events] using hsum

end Events

theorem events_states {ε : Type*} (next : ι → σ → σ) (s : σ) (inputs : Nat → ι)
    (out : σ → Option ε) (a b : Nat) :
    events (fun k => out (states next s inputs k)) a b =
      events (fun k => out (states next (states next s inputs a) (fun k => inputs (a + k)) k)) 0 b
    := by
  have hrange : List.range' a b = (List.range' 0 b).map (a + ·) := by
    rw [List.map_add_range', Nat.add_zero]
  rw [events, events, hrange, List.filterMap_map]
  congr 1
  funext k
  show out (states next s inputs (a + k)) = _
  rw [states_add]

section Progress

variable {A B : Nat → Prop} {n : Nat}

variable (A) in
/-- What is waited for comes at the event at the latest. -/
theorem eventually_of_event (event : Nat → Prop)
    (hstep : ∀ k, A k → B (k + 1) ∨ A (k + 1) ∧ ¬ event k) (hA : A n)
    (hevent : ∃ m ≥ n, event m) : ∃ m > n, B m := by
  by_contra hnever
  push Not at hnever
  have hwaits : ∀ k, n ≤ k → A k := by
    intro k hk
    induction k, hk using Nat.le_induction with
    | base => exact hA
    | succ k hk ih =>
      rcases hstep k ih with hB | ⟨hA', -⟩
      · exact absurd hB (hnever (k + 1) (by omega))
      · exact hA'
  obtain ⟨m, hm, he⟩ := hevent
  rcases hstep m (hwaits m hm) with hB | ⟨-, hno⟩
  · exact hnever (m + 1) (by omega) hB
  · exact hno he

/-- A rank that goes down again and again ends the wait. -/
theorem eventually_of_rank (rank : Nat → Nat)
    (hdown : ∀ k, A k → ∃ m > k, B m ∨ A m ∧ rank m < rank k) (hA : A n) : ∃ m > n, B m := by
  induction hr : rank n using Nat.strong_induction_on generalizing n with
  | _ r ih =>
    obtain ⟨m, hm, hB | ⟨hA', hlt⟩⟩ := hdown n hA
    · exact ⟨m, hm, hB⟩
    · obtain ⟨m', hm', hB⟩ := ih (rank m) (hr ▸ hlt) hA' rfl
      exact ⟨m', by omega, hB⟩

/-- A rank that goes down in every clock until there is nothing left to do, and then nothing
moves. -/
theorem settled_of_rank (rank : Nat → Nat)
    (hkeep : ∀ k, n ≤ k → B k → B (k + 1))
    (hdown : ∀ k, n ≤ k → ¬ B k → rank (k + 1) < rank k) {m : Nat} (hm : n + rank n ≤ m) :
    B m := by
  have hbound : ∀ k, B (n + k) ∨ rank (n + k) + k ≤ rank n := by
    intro k
    induction k with
    | zero => exact .inr le_rfl
    | succ k ih =>
      by_cases hdone : B (n + k)
      · exact .inl (hkeep (n + k) (by omega) hdone)
      · have hlt := hdown (n + k) (by omega) hdone
        have hle := ih.resolve_left hdone
        rw [show n + (k + 1) = n + k + 1 from rfl]
        exact .inr (by omega)
  obtain ⟨k, rfl⟩ : ∃ k, m = n + k := ⟨m - n, by omega⟩
  rcases hbound k with hdone | hle
  · exact hdone
  · by_contra hdone
    have hlt := hdown (n + k) (by omega) hdone
    omega

end Progress

end Run
