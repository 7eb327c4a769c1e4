import Xtc.Lib.Run

/-!
# Exchange — requests and their answers, as one party of a bus sees them

What a party has seen taken and not yet answered, the requests with their answers so far, and the
answers that came without a request.  An answer goes to the oldest request, and may come in the
clock of the request.
-/

structure Exchange (ρ α : Type*) where
  waiting : List ρ
  served : List (ρ × α)
  stray : List α

namespace Exchange

variable {ρ σ α : Type*}

def empty : Exchange ρ α := ⟨[], [], []⟩

def step (q : Option ρ) (a : Option α) (x : Exchange ρ α) : Exchange ρ α :=
  match a, x.waiting ++ q.toList with
  | none, waiting => { x with waiting := waiting }
  | some a, [] => { x with waiting := [], stray := x.stray ++ [a] }
  | some a, r :: rest => { x with waiting := rest, served := x.served ++ [(r, a)] }

/-- After `n` clocks of requests and answers. -/
def run (q : Nat → Option ρ) (a : Nat → Option α) : Nat → Exchange ρ α
  | 0 => empty
  | n + 1 => (run q a n).step (q n) (a n)

/-- All that was taken, answered or not. -/
def asked (x : Exchange ρ α) : List ρ := x.served.map Prod.fst ++ x.waiting

section Step

variable {q : Option ρ} {a : Option α} {x : Exchange ρ α}

theorem step_none : x.step q none = { x with waiting := x.waiting ++ q.toList } := rfl

theorem step_stray {v : α} (h : x.waiting ++ q.toList = []) :
    x.step q (some v) = { x with waiting := [], stray := x.stray ++ [v] } := by
  unfold step
  rw [h]

theorem step_served {v : α} {r : ρ} {rest : List ρ} (h : x.waiting ++ q.toList = r :: rest) :
    x.step q (some v) = { x with waiting := rest, served := x.served ++ [(r, v)] } := by
  unfold step
  rw [h]

theorem waiting_step_subset {r : ρ} (h : r ∈ (x.step q a).waiting) :
    r ∈ x.waiting ++ q.toList := by
  cases a with
  | none => exact h
  | some v =>
    cases hw : x.waiting ++ q.toList with
    | nil =>
      rw [step_stray hw] at h
      exact h
    | cons s rest =>
      rw [step_served hw] at h
      exact List.mem_cons_of_mem s h

theorem length_waiting_step : (x.step q a).waiting.length =
    x.waiting.length + q.toList.length - a.isSome.toNat := by
  have hlen := @List.length_append _ x.waiting q.toList
  cases a with
  | none => exact hlen
  | some v =>
    cases hw : x.waiting ++ q.toList with
    | nil =>
      rw [step_stray hw]
      rw [hw] at hlen
      simp only [List.length_nil, Option.isSome_some, Bool.toNat_true] at hlen ⊢
      omega
    | cons r rest =>
      rw [step_served hw]
      rw [hw] at hlen
      simp only [List.length_cons, Option.isSome_some, Bool.toNat_true] at hlen ⊢
      omega

/-- Nothing is stray as long as answers come to something. -/
theorem stray_step : (x.step q a).stray = [] ↔
    x.stray = [] ∧ (a.isSome = true → x.waiting ++ q.toList ≠ []) := by
  cases a with
  | none => simp [step_none]
  | some v =>
    cases hw : x.waiting ++ q.toList with
    | nil => simp [step_stray hw]
    | cons r rest => simp [step_served hw]

theorem asked_step (h : (x.step q a).stray = []) : (x.step q a).asked = x.asked ++ q.toList := by
  have hsome := (stray_step.mp h).2
  cases a with
  | none => rw [step_none, asked, asked, List.append_assoc]
  | some v =>
    cases hw : x.waiting ++ q.toList with
    | nil => exact absurd hw (hsome rfl)
    | cons r rest =>
      rw [step_served hw, asked, asked, List.append_assoc, hw]
      simp

theorem length_served_step (h : (x.step q a).stray = []) :
    (x.step q a).served.length = x.served.length + a.isSome.toNat := by
  have hsome := (stray_step.mp h).2
  cases a with
  | none => rfl
  | some v =>
    cases hw : x.waiting ++ q.toList with
    | nil => exact absurd hw (hsome rfl)
    | cons r rest =>
      rw [step_served hw, List.length_append]
      rfl

end Step

section Run

variable {q : Nat → Option ρ} {a : Nat → Option α}

theorem asked_run (h : ∀ n, (run q a n).stray = []) (n : Nat) :
    (run q a n).asked = Run.events q 0 n := by
  induction n with
  | zero => rfl
  | succ n ih => rw [run, asked_step (h (n + 1)), ih, Run.events_succ, Nat.zero_add]

theorem length_served_run (h : ∀ n, (run q a n).stray = []) (n k : Nat) :
    (run q a (n + k)).served.length =
      (run q a n).served.length + ∑ j ∈ Finset.range k, (a (n + j)).isSome.toNat := by
  induction k with
  | zero => rfl
  | succ k ih =>
    rw [Finset.sum_range_succ, ← Nat.add_assoc (List.length _), ← ih, ← Nat.add_assoc n]
    exact length_served_step (h (n + k + 1))

end Run

/-! The part of an exchange that one of several parties takes. -/

/-- `y` sees the requests of `x` that `p` selects, as `f` shows them, and the answers to them. -/
structure Part (p : ρ → Bool) (f : ρ → σ) (x : Exchange ρ α) (y : Exchange σ α) : Prop where
  waiting : y.waiting = (x.waiting.filter p).map f
  served : y.served = (x.served.filter fun z => p z.1).map fun z => (f z.1, z.2)
  stray : y.stray = []

theorem Part.empty (p : ρ → Bool) (f : ρ → σ) :
    Part p f (empty : Exchange ρ α) (empty : Exchange σ α) :=
  ⟨rfl, rfl, rfl⟩

theorem Part.offered {p : ρ → Bool} {f : ρ → σ} {x : Exchange ρ α} {y : Exchange σ α}
    (h : Part p f x y) (q : Option ρ) :
    y.waiting ++ ((q.filter p).map f).toList = ((x.waiting ++ q.toList).filter p).map f := by
  rw [h.waiting, List.filter_append, List.map_append]
  congr 1
  cases q with
  | none => rfl
  | some r => cases hp : p r <;> simp [hp]

/-- An answer passed on to the party whose request is the oldest. -/
theorem Part.step {p : ρ → Bool} {f : ρ → σ} {x : Exchange ρ α} {y : Exchange σ α}
    (h : Part p f x y) {q : Option ρ} {a b : Option α}
    (hb : b = if (x.waiting ++ q.toList).head?.any p then a else none) :
    Part p f (x.step q a) (y.step ((q.filter p).map f) b) := by
  have hall := h.offered q
  cases a with
  | none =>
    obtain rfl : b = none := by simp [hb]
    rw [step_none, step_none]
    exact ⟨hall, h.served, h.stray⟩
  | some v =>
    cases hw : x.waiting ++ q.toList with
    | nil =>
      obtain rfl : b = none := by simp [hb, hw]
      rw [step_stray hw, step_none]
      exact ⟨by rw [hall, hw], h.served, h.stray⟩
    | cons r rest =>
      rw [step_served hw]
      rw [hw] at hall hb
      cases hp : p r with
      | false =>
        obtain rfl : b = none := by simp [hb, hp]
        rw [step_none]
        refine ⟨by rw [hall]; simp [hp], ?_, h.stray⟩
        simp [h.served, hp]
      | true =>
        obtain rfl : b = some v := by simp [hb, hp]
        have hw' : y.waiting ++ ((q.filter p).map f).toList = f r :: (rest.filter p).map f := by
          rw [hall]
          simp [hp]
        rw [step_served hw']
        refine ⟨rfl, ?_, h.stray⟩
        simp [h.served, hp]

end Exchange
