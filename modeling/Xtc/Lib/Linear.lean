import Xtc.Lib.Exchange
import Xtc.Lib.Run

/-!
# Linear — requests that take effect one after the other

An object with states `μ` gives a request an answer and a new state; what it may answer is a
relation.  A party of a bus behaves as the object if the requests it has answered, in the order it
answered them, are a history of the object.  A server works on requests before it answers them: one
that waits is still to be executed, or is executed and its answer on the way.
-/

namespace Linear

variable {μ ρ α : Type*} (effect : μ → ρ → α → μ → Prop)

/-- The answers to the requests, each in the state the ones before have left. -/
inductive History : μ → List (ρ × α) → μ → Prop
  | nil (m : μ) : History m [] m
  | cons {m m' m'' : μ} {r : ρ} {a : α} {l : List (ρ × α)} (h : effect m r a m')
      (rest : History m' l m'') : History m ((r, a) :: l) m''

variable {effect}

/-- What a history starts with is a history. -/
theorem History.left {m m'' : μ} {l l' : List (ρ × α)} (h : History effect m (l ++ l') m'') :
    ∃ m', History effect m l m' ∧ History effect m' l' m'' := by
  induction l generalizing m with
  | nil => exact ⟨m, .nil m, h⟩
  | cons p l ih =>
    cases h with
    | cons h rest =>
      obtain ⟨m', hl, hl'⟩ := ih rest
      exact ⟨m', .cons h hl, hl'⟩

theorem History.append {m m' m'' : μ} {l l' : List (ρ × α)} (h : History effect m l m')
    (h' : History effect m' l' m'') : History effect m (l ++ l') m'' := by
  induction h with
  | nil m => exact h'
  | cons h _ ih => exact .cons h (ih h')

/-- An answer in the middle may be another one that fits as well. -/
theorem History.replace {m m'' : μ} {r : ρ} {a v : α} {l l' : List (ρ × α)}
    (h : History effect m (l ++ (r, a) :: l') m'')
    (hv : ∀ m m', effect m r a m' → effect m r v m') :
    History effect m (l ++ (r, v) :: l') m'' := by
  obtain ⟨m', hl, hrest⟩ := h.left
  cases hrest with
  | cons h rest => exact hl.append (.cons (hv _ _ h) rest)

variable (effect) in
/-- `out` are the requests executed and not answered yet, with answers that fit, and `todo` those
not executed. -/
structure Serves (m₀ : μ) (x : Exchange ρ α) (m : μ) (out : List (ρ × α)) (todo : List ρ) :
    Prop where
  waiting : x.waiting = out.map Prod.fst ++ todo
  history : History effect m₀ (x.served ++ out) m
  stray : x.stray = []

theorem Serves.empty (m₀ : μ) : Serves effect m₀ (Exchange.empty : Exchange ρ α) m₀ [] [] :=
  ⟨rfl, .nil m₀, rfl⟩

theorem Serves.exists_history {m₀ m : μ} {x : Exchange ρ α} {out : List (ρ × α)} {todo : List ρ}
    (h : Serves effect m₀ x m out todo) : ∃ m', History effect m₀ x.served m' := by
  obtain ⟨m', hserved, -⟩ := h.history.left
  exact ⟨m', hserved⟩

section Step

variable {m₀ m m' : μ} {x : Exchange ρ α} {out : List (ρ × α)} {todo : List ρ}
  {p : ρ × α} {v : α}

theorem Serves.take (h : Serves effect m₀ x m out todo) (q : Option ρ) :
    Serves effect m₀ (x.step q none) m out (todo ++ q.toList) := by
  rw [Exchange.step_none]
  refine ⟨?_, h.history, h.stray⟩
  rw [h.waiting, List.append_assoc]

/-- The oldest answer is given. -/
theorem Serves.give (h : Serves effect m₀ x m (p :: out) todo) (q : Option ρ)
    (hv : ∀ m m', effect m p.1 p.2 m' → effect m p.1 v m') :
    Serves effect m₀ (x.step q (some v)) m out (todo ++ q.toList) := by
  have hw : x.waiting ++ q.toList = p.1 :: (out.map Prod.fst ++ (todo ++ q.toList)) := by
    rw [h.waiting]
    simp
  rw [Exchange.step_served hw]
  refine ⟨rfl, ?_, h.stray⟩
  have hreplaced := h.history.replace hv
  simpa [List.append_assoc] using hreplaced

/-- The oldest requests that wait are executed. -/
theorem Serves.execute {done : List (ρ × α)}
    (h : Serves effect m₀ x m out (done.map Prod.fst ++ todo)) (hdone : History effect m done m') :
    Serves effect m₀ x m' (out ++ done) todo := by
  refine ⟨?_, ?_, h.stray⟩
  · rw [h.waiting, List.map_append, List.append_assoc]
  · have hlast := h.history.append hdone
    rwa [List.append_assoc] at hlast

end Step

end Linear
