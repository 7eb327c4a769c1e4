import Mathlib.Tactic

/-!
# Cut — positions on a line from which a stretch is deleted

Deleting `c` places behind `a` moves every later position back.  Positions that are not among the
deleted places keep their order, and none comes further apart from another.  Blocks of places that
are apart from a block around the deleted ones move as a whole.
-/

namespace Cut

/-- Where a position ends up. -/
def cut (a c x : Nat) : Nat := if a < x then x - c else x

/-- Not strictly inside the block of `k` places at `a`. -/
def Clear (a k x : Nat) : Prop := x ≤ a ∨ a + k ≤ x

/-- The block of `k` places at `a` and the block of `l` places at `b` have no place in common. -/
def Apart (a k b l : Nat) : Prop := a + k ≤ b ∨ b + l ≤ a

variable {a c k k' b l x y : Nat}

theorem cut_of_le (h : x ≤ a) : cut a c x = x := if_neg (by omega)

theorem cut_of_lt (h : a < x) : cut a c x = x - c := if_pos h

theorem cut_le (a c x : Nat) : cut a c x ≤ x := by
  unfold cut
  split <;> omega

theorem Clear.mono (h : Clear a k x) (hle : k' ≤ k) : Clear a k' x := by
  unfold Clear at *
  omega

/-- Two positions keep their order, and come no further apart. -/
theorem Clear.cut_near (hy : Clear a c y) (hxy : x ≤ y) :
    cut a c x ≤ cut a c y ∧ cut a c y + x ≤ y + cut a c x := by
  unfold cut Clear at *
  split <;> split <;> omega

/-- What is left of the block that shrinks stays clear of a position. -/
theorem Clear.cut_self (h : Clear a k x) (hc : k' + c ≤ k) : Clear a k' (cut a c x) := by
  unfold cut Clear at *
  split <;> omega

theorem cut_bound (hx : x ≤ y) (hy : a + c ≤ y) : cut a c x ≤ y - c := by
  unfold cut
  split <;> omega

namespace Apart

theorem symm (h : Apart a k b l) : Apart b l a k := Or.symm h

theorem clear (h : Apart a k b l) (hl : 0 < l) : Clear a k b := by
  unfold Apart Clear at *
  omega

/-- A block apart from the one that shrinks moves as a whole. -/
theorem cut_add (h : Apart a k b l) (hc : c ≤ k) (hl : 0 < l) (hx : x ≤ l) :
    cut a c (b + x) = cut a c b + x := by
  unfold cut Apart at *
  split <;> split <;> omega

theorem cut_self (h : Apart a k b l) (hc : k' + c ≤ k) : Apart a k' (cut a c b) l := by
  unfold cut Apart at *
  split <;> omega

theorem cut_both {d m : Nat} (hb : Apart a k b l) (hd : Apart a k d m) (h : Apart b l d m)
    (hc : c ≤ k) (hl : 0 < l) (hm : 0 < m) : Apart (cut a c b) l (cut a c d) m := by
  unfold cut Apart at *
  split <;> split <;> omega

theorem cut_clear (h : Apart a k b l) (hx : Clear a c x) (hclear : Clear b l x) (hc : c ≤ k)
    (hl : 0 < l) : Clear (cut a c b) l (cut a c x) := by
  unfold cut Apart Clear at *
  split <;> split <;> omega

theorem cut_bound (h : Apart a k b l) (hc : c ≤ k) (hl : 0 < l) (hb : b + l ≤ y) (ha : a + k ≤ y) :
    cut a c b + l ≤ y - c := by
  unfold cut Apart at *
  split <;> omega

end Apart

/-! ## What is left -/

def without {α : Type*} (a c : Nat) (l : List α) : List α := l.take a ++ l.drop (a + c)

theorem without_getElem? {α : Type*} (l : List α) (i : Nat) (h : a + c ≤ l.length) :
    (without a c l)[i]? = if i < a then l[i]? else l[i + c]? := by
  have hlen : (l.take a).length = a := by
    rw [List.length_take]
    omega
  unfold without
  by_cases hi : i < a
  · rw [List.getElem?_append_left (by omega), if_pos hi, List.getElem?_take_of_lt hi]
  · rw [List.getElem?_append_right (by omega), if_neg hi, hlen, List.getElem?_drop]
    congr 1
    omega

theorem Clear.without_cut {α : Type*} {l : List α} (hx : Clear a c x) (hne : x ≠ a)
    (h : a + c ≤ l.length) : (without a c l)[cut a c x]? = l[x]? := by
  rw [without_getElem? _ _ h]
  unfold cut Clear at *
  by_cases hlt : a < x
  · rw [if_pos hlt, if_neg (by omega)]
    congr 1
    omega
  · rw [if_neg hlt, if_pos (by omega)]

end Cut
