import Mathlib.Tactic

/-!
# Comp — computations on a state that may run forever

A computation is run with a bound on the rounds its loops take, and has no result if the bound is
too small; a larger bound never changes a result.  `Returns` is the meaning without the bound: a
computation that never ends returns nothing.
-/

structure Comp (σ α : Type) where
  run : Nat → σ → Option (α × σ)
  mono : ∀ {n m : Nat} {s : σ} {r : α × σ}, run n s = some r → n ≤ m → run m s = some r

namespace Comp

variable {σ α β : Type}

def act (f : σ → α × σ) : Comp σ α where
  run _ s := some (f s)
  mono h _ := h

def ret (a : α) : Comp σ α := act fun s => (a, s)

def andThen (c : Comp σ α) (f : α → Comp σ β) : Comp σ β where
  run n s := (c.run n s).bind fun r => (f r.1).run n r.2
  mono := by
    intro n m s r h hle
    rw [Option.bind_eq_some_iff] at h ⊢
    obtain ⟨r', hc, hf⟩ := h
    exact ⟨r', c.mono hc hle, (f r'.1).mono hf hle⟩

instance : Monad (Comp σ) where
  pure := ret
  bind := andThen

/-- The rounds of a loop: a body that gives `inl` goes on, one that gives `inr` ends the loop. -/
def rounds (body : α → Comp σ (α ⊕ β)) : Nat → α → σ → Option (β × σ)
  | 0, _, _ => none
  | n + 1, a, s => ((body a).run n s).bind fun r =>
      match r.1 with
      | .inl a' => rounds body n a' r.2
      | .inr b => some (b, r.2)

theorem rounds_mono {body : α → Comp σ (α ⊕ β)} {n m : Nat} {a : α} {s : σ} {r : β × σ}
    (h : rounds body n a s = some r) (hle : n ≤ m) : rounds body m a s = some r := by
  induction n generalizing m a s with
  | zero => contradiction
  | succ n ih =>
    obtain ⟨m, rfl⟩ : ∃ k, m = k + 1 := ⟨m - 1, by omega⟩
    rw [rounds, Option.bind_eq_some_iff] at h ⊢
    obtain ⟨⟨x, s'⟩, hbody, hrest⟩ := h
    refine ⟨(x, s'), (body a).mono hbody (by omega), ?_⟩
    cases x with
    | inl a' => exact ih hrest (by omega)
    | inr b => exact hrest

def loop (body : α → Comp σ (α ⊕ β)) (a : α) : Comp σ β where
  run n s := rounds body n a s
  mono := rounds_mono

/-! ## Results -/

def Returns (c : Comp σ α) (s : σ) (a : α) (s' : σ) : Prop := ∃ n, c.run n s = some (a, s')

section Results

variable {c : Comp σ α} {f : α → Comp σ β} {s s' s'' : σ} {a a' : α} {b : β}

theorem Returns.unique (h : c.Returns s a s') (h' : c.Returns s a' s'') : a = a' ∧ s' = s'' := by
  obtain ⟨n, hn⟩ := h
  obtain ⟨m, hm⟩ := h'
  have hn' := c.mono hn (Nat.le_max_left n m)
  have hm' := c.mono hm (Nat.le_max_right n m)
  rw [hn'] at hm'
  simpa using hm'

@[simp] theorem returns_act {g : σ → α × σ} : (act g).Returns s a s' ↔ g s = (a, s') := by
  simp [Returns, act]

@[simp] theorem returns_pure : (pure a : Comp σ α).Returns s a' s' ↔ a = a' ∧ s = s' := by
  show (act fun s => (a, s)).Returns s a' s' ↔ _
  simp

theorem returns_bind : (c >>= f).Returns s b s'' ↔
    ∃ a s', c.Returns s a s' ∧ (f a).Returns s' b s'' := by
  show (c.andThen f).Returns s b s'' ↔ _
  constructor
  · rintro ⟨n, h⟩
    simp only [andThen, Option.bind_eq_some_iff] at h
    obtain ⟨⟨a, s'⟩, hc, hf⟩ := h
    exact ⟨a, s', ⟨n, hc⟩, n, hf⟩
  · rintro ⟨a, s', ⟨n, hc⟩, m, hf⟩
    refine ⟨max n m, ?_⟩
    simp only [andThen, Option.bind_eq_some_iff]
    exact ⟨(a, s'), c.mono hc (Nat.le_max_left n m), (f a).mono hf (Nat.le_max_right n m)⟩

/-- A result that a run with enough rounds shows. -/
theorem returns_of_run (n : Nat) (p : α → σ → Bool)
    (h : (c.run n s).any (fun r => p r.1 r.2) = true) :
    ∃ a s', c.Returns s a s' ∧ p a s' = true := by
  obtain ⟨⟨a, s'⟩, hrun, hp⟩ := (Option.any_eq_true _ _).mp h
  exact ⟨a, s', ⟨n, hrun⟩, hp⟩

@[simp] theorem returns_act_bind {g : σ → α × σ} :
    (act g >>= f).Returns s b s' ↔ (f (g s).1).Returns (g s).2 b s' := by
  rw [returns_bind]
  simp only [returns_act]
  constructor
  · rintro ⟨a, s1, h, hf⟩
    rw [h]
    exact hf
  · intro h
    exact ⟨_, _, rfl, h⟩

end Results

/-! ## Loops -/

section Loops

variable {body : α → Comp σ (α ⊕ β)} {s s' : σ} {a : α} {b : β}

theorem returns_loop : (loop body a).Returns s b s' ↔
    (∃ a' s1, (body a).Returns s (.inl a') s1 ∧ (loop body a').Returns s1 b s') ∨
      (body a).Returns s (.inr b) s' := by
  constructor
  · rintro ⟨n, h⟩
    cases n with
    | zero => exact absurd h (by simp [loop, rounds])
    | succ n =>
      simp only [loop, rounds, Option.bind_eq_some_iff] at h
      obtain ⟨⟨x, s1⟩, hbody, hrest⟩ := h
      cases x with
      | inl a' => exact Or.inl ⟨a', s1, ⟨n, hbody⟩, n, hrest⟩
      | inr b' =>
        obtain ⟨rfl, rfl⟩ : b' = b ∧ s1 = s' := by simpa using hrest
        exact Or.inr ⟨n, hbody⟩
  · rintro (⟨a', s1, ⟨n, hbody⟩, m, hrest⟩ | ⟨n, hbody⟩)
    · refine ⟨max n m + 1, ?_⟩
      simp only [loop, rounds, Option.bind_eq_some_iff]
      exact ⟨_, (body a).mono hbody (Nat.le_max_left n m),
        rounds_mono hrest (Nat.le_max_right n m)⟩
    · refine ⟨n + 1, ?_⟩
      simp only [loop, rounds, Option.bind_eq_some_iff]
      exact ⟨_, hbody, rfl⟩

/-- The rule of invariants: what every round keeps and the last round turns into `Q`. -/
theorem Returns.of_invariant (P : α → σ → Prop) {Q : β → σ → Prop}
    (hround : ∀ a s a' s', P a s → (body a).Returns s (.inl a') s' → P a' s')
    (hlast : ∀ a s b s', P a s → (body a).Returns s (.inr b) s' → Q b s')
    (hP : P a s) (h : (loop body a).Returns s b s') : Q b s' := by
  obtain ⟨n, h⟩ := h
  induction n generalizing a s with
  | zero => exact absurd h (by simp [loop, rounds])
  | succ n ih =>
    simp only [loop, rounds, Option.bind_eq_some_iff] at h
    obtain ⟨⟨x, s1⟩, hbody, hrest⟩ := h
    cases x with
    | inl a' => exact ih (hround a s a' s1 hP ⟨n, hbody⟩) hrest
    | inr b' =>
      obtain ⟨rfl, rfl⟩ : b' = b ∧ s1 = s' := by simpa using hrest
      exact hlast a s b' s1 hP ⟨n, hbody⟩

/-- A loop none of whose rounds is the last. -/
theorem not_returns_loop (P : α → σ → Prop)
    (hround : ∀ a s x s', P a s → (body a).Returns s x s' → ∃ a', x = .inl a' ∧ P a' s')
    (hP : P a s) : ¬ (loop body a).Returns s b s' := by
  intro h
  refine Returns.of_invariant (Q := fun _ _ => False) P ?_ ?_ hP h
  · intro a s a' s1 hP hbody
    obtain ⟨a'', heq, hP'⟩ := hround a s _ s1 hP hbody
    cases heq
    exact hP'
  · intro a s b s1 hP hbody
    obtain ⟨a', heq, -⟩ := hround a s _ s1 hP hbody
    contradiction

/-- The rule of variants: a measure that every round but the last takes down. -/
theorem loop_returns (P : α → σ → Prop) (Q : β → σ → Prop) (measure : α → σ → Nat)
    (hbody : ∀ a s, P a s →
      (∃ a' s', (body a).Returns s (.inl a') s' ∧ P a' s' ∧ measure a' s' < measure a s) ∨
      ∃ b s', (body a).Returns s (.inr b) s' ∧ Q b s')
    (hP : P a s) : ∃ b s', (loop body a).Returns s b s' ∧ Q b s' := by
  induction hm : measure a s using Nat.strong_induction_on generalizing a s with
  | _ m ih =>
    rcases hbody a s hP with ⟨a', s1, hround, hP', hlt⟩ | ⟨b, s', hlast, hQ⟩
    · obtain ⟨b, s', hrest, hQ⟩ := ih _ (hm ▸ hlt) hP' rfl
      exact ⟨b, s', returns_loop.mpr (Or.inl ⟨a', s1, hround, hrest⟩), hQ⟩
    · exact ⟨b, s', returns_loop.mpr (Or.inr hlast), hQ⟩

end Loops

/-! ## Postconditions -/

/-- The computation ends, and `Q` holds of its result. -/
def Ensures (c : Comp σ α) (s : σ) (Q : α → σ → Prop) : Prop := ∃ a s', c.Returns s a s' ∧ Q a s'

/-- A computation on a part of the state. -/
def on {τ : Type} (get : σ → τ) (set : τ → σ → σ) (c : Comp τ α) : Comp σ α where
  run n s := (c.run n (get s)).map fun r => (r.1, set r.2 s)
  mono := by
    intro n m s r h hle
    rw [Option.map_eq_some_iff] at h ⊢
    obtain ⟨r', hc, heq⟩ := h
    exact ⟨r', c.mono hc hle, heq⟩

section Ensures

variable {c : Comp σ α} {f : α → Comp σ β} {s : σ} {a : α} {P Q : α → σ → Prop}
  {R : β → σ → Prop}

@[simp] theorem ensures_act {g : σ → α × σ} : (act g).Ensures s Q ↔ Q (g s).1 (g s).2 := by
  constructor
  · rintro ⟨a, s', h, hQ⟩
    rw [returns_act] at h
    rwa [h]
  · intro hQ
    exact ⟨_, _, returns_act.mpr rfl, hQ⟩

@[simp] theorem ensures_pure : (pure a : Comp σ α).Ensures s Q ↔ Q a s :=
  ensures_act (g := fun s => (a, s))

@[simp] theorem ensures_bind :
    (c >>= f).Ensures s R ↔ c.Ensures s fun a s' => (f a).Ensures s' R := by
  constructor
  · rintro ⟨b, s'', h, hR⟩
    obtain ⟨a, s', hc, hf⟩ := returns_bind.mp h
    exact ⟨a, s', hc, b, s'', hf, hR⟩
  · rintro ⟨a, s', hc, b, s'', hf, hR⟩
    exact ⟨b, s'', returns_bind.mpr ⟨a, s', hc, hf⟩, hR⟩

theorem Ensures.imp (h : c.Ensures s P) (himp : ∀ a s', P a s' → Q a s') : c.Ensures s Q := by
  obtain ⟨a, s', hc, hP⟩ := h
  exact ⟨a, s', hc, himp a s' hP⟩

@[simp] theorem ensures_on {τ : Type} {get : σ → τ} {set : τ → σ → σ} {c : Comp τ α} :
    (c.on get set).Ensures s Q ↔ c.Ensures (get s) fun a t => Q a (set t s) := by
  constructor
  · rintro ⟨a, s', ⟨n, h⟩, hQ⟩
    obtain ⟨⟨a', t⟩, hc, heq⟩ := Option.map_eq_some_iff.mp h
    obtain ⟨rfl, rfl⟩ := Prod.mk.inj heq
    exact ⟨a', t, ⟨n, hc⟩, hQ⟩
  · rintro ⟨a, t, ⟨n, hc⟩, hQ⟩
    exact ⟨a, set t s, ⟨n, Option.map_eq_some_iff.mpr ⟨_, hc, rfl⟩⟩, hQ⟩

/-- The rule of variants, with postconditions. -/
theorem ensures_loop {body : α → Comp σ (α ⊕ β)} (P : α → σ → Prop) (measure : α → Nat)
    (hbody : ∀ a s, P a s → (body a).Ensures s fun x s' =>
      x.elim (fun a' => P a' s' ∧ measure a' < measure a) fun b => R b s')
    (hP : P a s) : (loop body a).Ensures s R := by
  refine loop_returns P R (fun a _ => measure a) ?_ hP
  intro a s hP
  obtain ⟨x, s', hret, hx⟩ := hbody a s hP
  cases x with
  | inl a' => exact Or.inl ⟨a', s', hret, hx⟩
  | inr b => exact Or.inr ⟨b, s', hret, hx⟩

end Ensures

/-! ## What no run takes back -/

/-- Wherever the computation ends, `f` has not gone down. -/
def Advances {τ : Type} [Preorder τ] (f : σ → τ) (c : Comp σ α) : Prop :=
  ∀ s a s', c.Returns s a s' → f s ≤ f s'

section Advances

variable {τ : Type} [Preorder τ] {f : σ → τ}

theorem advances_act {g : σ → α × σ} (h : ∀ s, f s ≤ f (g s).2) : Advances f (act g) := by
  intro s a s' hret
  rw [returns_act] at hret
  simpa [hret] using h s

theorem advances_pure (a : α) : Advances f (pure a : Comp σ α) :=
  advances_act fun _ => le_rfl

theorem Advances.bind {c : Comp σ α} {g : α → Comp σ β} (hc : Advances f c)
    (hg : ∀ a, Advances f (g a)) : Advances f (c >>= g) := by
  intro s b s'' hret
  obtain ⟨a, s', h, h'⟩ := returns_bind.mp hret
  exact (hc s a s' h).trans (hg a s' b s'' h')

theorem Advances.loop {body : α → Comp σ (α ⊕ β)} (hbody : ∀ a, Advances f (body a)) (a : α) :
    Advances f (loop body a) := by
  intro s b s' hret
  refine Returns.of_invariant (Q := fun _ s' => f s ≤ f s') (fun _ s1 => f s ≤ f s1) ?_ ?_ le_rfl
    hret
  · intro a s1 a' s2 hle h
    exact hle.trans (hbody a s1 _ s2 h)
  · intro a s1 b s2 hle h
    exact hle.trans (hbody a s1 _ s2 h)

end Advances

end Comp
