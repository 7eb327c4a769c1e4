import Mathlib.Tactic

/-!
# Due — a queue whose entries have deadlines

In a clock the first entries of the queue leave, and the others come one clock closer to their
deadline, but for a delay that the clock may cause.
-/

namespace Due

variable (dues : Nat → List Nat) (gone delay : Nat → Nat)

/-- One clock of the queue. -/
structure Step (n : Nat) : Prop where
  pos : ∀ d ∈ dues n, 0 < d
  closer : ∃ l new, dues (n + 1) = l ++ new ∧
    List.Forall₂ (fun d' d => d' + 1 ≤ d + delay n) l ((dues n).drop (gone n))

variable {dues gone delay}

theorem exists_of_forall₂ {α β : Type*} {R : α → β → Prop} {l : List α} {l' : List β}
    (h : List.Forall₂ R l l') {a : α} (ha : a ∈ l) : ∃ b ∈ l', R a b := by
  induction h with
  | nil => cases ha
  | @cons x y _ _ hxy _ ih =>
    rcases List.mem_cons.mp ha with rfl | ha
    · exact ⟨y, List.mem_cons_self, hxy⟩
    · obtain ⟨b, hb, hR⟩ := ih ha
      exact ⟨b, List.mem_cons_of_mem _ hb, hR⟩

/-- The entries that stay, of the first `k`. -/
theorem Step.take {n k D : Nat} (h : Step dues gone delay n) (hk : k ≤ (dues n).length)
    (hD : ∀ d ∈ (dues n).take k, d ≤ D) :
    k - gone n ≤ (dues (n + 1)).length ∧
      ∀ d ∈ (dues (n + 1)).take (k - gone n), d + 1 ≤ D + delay n := by
  obtain ⟨l, new, hnext, hall⟩ := h.closer
  have hlen := hall.length_eq
  rw [List.length_drop] at hlen
  refine ⟨by rw [hnext, List.length_append]; omega, ?_⟩
  rw [hnext, List.take_append_of_le_length (by omega)]
  have htake := List.forall₂_take (k - gone n) hall
  have hdrop : ∀ d ∈ ((dues n).drop (gone n)).take (k - gone n), d ≤ D := by
    intro d hd
    rw [List.take_drop] at hd
    have hmem := List.mem_of_mem_drop hd
    by_cases hkg : gone n ≤ k
    · rw [Nat.add_sub_cancel' hkg] at hmem
      exact hD d hmem
    · rw [Nat.sub_eq_zero_of_le (by omega), Nat.add_zero, List.drop_eq_nil_of_le (by simp)] at hd
      cases hd
  intro d' hd'
  obtain ⟨d, hd, hle⟩ := exists_of_forall₂ htake hd'
  have := hdrop d hd
  omega

theorem Step.due_pos {n k D : Nat} (h : Step dues gone delay n) (hk : k ≤ (dues n).length)
    (hD : ∀ d ∈ (dues n).take k, d ≤ D) (hpos : 0 < k) : 0 < D := by
  have hne : (dues n).take k ≠ [] := by
    intro hnil
    have hlen := congrArg List.length hnil
    rw [List.length_take, List.length_nil] at hlen
    omega
  obtain ⟨d, l, hcons⟩ := List.exists_cons_of_ne_nil hne
  have hmem : d ∈ (dues n).take k := by
    rw [hcons]
    exact List.mem_cons_self
  exact (h.pos d (List.mem_of_mem_take hmem)).trans_le (hD d hmem)

/-- The first `k` entries, due in `D` clocks, have left after `L` clocks, if the delays of those
leave the time. -/
theorem gone_by {L n k D : Nat} (hstep : ∀ m, n ≤ m → Step dues gone delay m)
    (hk : k ≤ (dues n).length) (hD : ∀ d ∈ (dues n).take k, d ≤ D)
    (hL : D + ∑ j ∈ Finset.range L, delay (n + j) ≤ L) :
    k ≤ ∑ j ∈ Finset.range L, gone (n + j) := by
  induction L generalizing n k D with
  | zero =>
    rcases Nat.eq_zero_or_pos k with rfl | hpos
    · exact Nat.zero_le _
    · have hdue := (hstep n le_rfl).due_pos hk hD hpos
      omega
  | succ L ih =>
    rcases Nat.eq_zero_or_pos k with rfl | hpos
    · exact Nat.zero_le _
    · have hdue := (hstep n le_rfl).due_pos hk hD hpos
      obtain ⟨hk', hD'⟩ := (hstep n le_rfl).take hk hD
      have hshift : ∀ f : Nat → Nat, ∑ j ∈ Finset.range (L + 1), f (n + j) =
          ∑ j ∈ Finset.range L, f (n + 1 + j) + f n := by
        intro f
        rw [Finset.sum_range_succ', Nat.add_zero]
        simp only [Nat.add_right_comm n, Nat.add_assoc]
      rw [hshift] at hL ⊢
      have hrest := ih (n := n + 1) (k := k - gone n) (D := D + delay n - 1)
        (fun m hm => hstep m (by omega)) hk' (fun d hd => Nat.le_sub_of_add_le (hD' d hd))
        (by omega)
      omega

end Due
