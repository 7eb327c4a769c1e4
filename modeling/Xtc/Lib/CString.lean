import Mathlib.Data.List.TakeWhile
import Mathlib.Tactic

/-!
# CString — strings with a NUL at their end, in arrays of characters

An array is the list of its characters.  What is written into it has to fit: a write beyond the end
has no result.
-/

namespace CString

def nul : Char := Char.ofNat 0

def string (buf : List Char) : List Char := buf.takeWhile (· ≠ nul)

def strlen (buf : List Char) : Nat := (string buf).length

def write (buf : List Char) (i : Nat) (cs : List Char) : Option (List Char) :=
  if i + cs.length ≤ buf.length then some (buf.take i ++ (cs ++ buf.drop (i + cs.length)))
  else none

def strcpy (buf src : List Char) : Option (List Char) := write buf 0 (src ++ [nul])

def strcatAt (buf : List Char) (d : Nat) (src : List Char) : Option (List Char) :=
  write buf (d + strlen (buf.drop d)) (src ++ [nul])

def strcat (buf src : List Char) : Option (List Char) := strcatAt buf 0 src

def strncpy (buf src : List Char) (n : Nat) : Option (List Char) :=
  write buf 0 ((src ++ List.replicate n nul).take n)

structure Holds (n : Nat) (buf s : List Char) : Prop where
  length : buf.length = n
  noNul : nul ∉ s
  terminated : ∃ t, buf = s ++ nul :: t

section Strings

variable {buf buf' src cs s t : List Char} {i d n : Nat}

theorem string_append (h : nul ∉ s) : string (s ++ t) = s ++ string t := by
  rw [string, List.takeWhile_append_of_pos]
  · rfl
  · intro c hc
    exact decide_eq_true fun heq => h (heq ▸ hc)

theorem string_nul (t : List Char) : string (nul :: t) = [] :=
  List.takeWhile_cons_of_neg (by simp)

theorem write_append (s t cs : List Char) : write (s ++ t) s.length cs =
    if cs.length ≤ t.length then some (s ++ (cs ++ t.drop cs.length)) else none := by
  unfold write
  simp only [List.length_append, Nat.add_le_add_iff_left, List.take_left,
    List.drop_length_add_append]

theorem strcpy_eq (buf src : List Char) : strcpy buf src =
    if src.length < buf.length then some (src ++ nul :: buf.drop (src.length + 1)) else none := by
  have := write_append [] buf (src ++ [nul])
  rw [List.length_append, List.append_assoc] at this
  exact this

theorem strcatAt_eq (hs : nul ∉ s) (hd : d ≤ s.length) : strcatAt (s ++ nul :: t) d src =
    if src.length ≤ t.length then some (s ++ (src ++ nul :: t.drop src.length)) else none := by
  have hend : d + strlen ((s ++ nul :: t).drop d) = s.length := by
    rw [List.drop_append_of_le_length hd, strlen,
      string_append fun h => hs (List.mem_of_mem_drop h), string_nul, List.append_nil,
      List.length_drop]
    omega
  rw [strcatAt, hend, write_append]
  simp only [List.length_append, List.length_cons, List.length_nil, Nat.add_le_add_iff_right,
    List.append_assoc]
  rfl

theorem Holds.string (h : Holds n buf s) : string buf = s := by
  obtain ⟨-, hs, t, rfl⟩ := h
  rw [string_append hs, string_nul, List.append_nil]

theorem Holds.strlen (h : Holds n buf s) : strlen buf = s.length := congrArg List.length h.string

theorem Holds.length_lt (h : Holds n buf s) : s.length < n := by
  obtain ⟨rfl, -, t, rfl⟩ := h
  simp

theorem Holds.getElem?_length (h : Holds n buf s) : buf[s.length]? = some nul := by
  obtain ⟨-, -, t, rfl⟩ := h
  simp

theorem holds_strcpy (buf : List Char) (hsrc : nul ∉ src) (h : src.length < buf.length) :
    ∃ buf', strcpy buf src = some buf' ∧ Holds buf.length buf' src := by
  refine ⟨_, (strcpy_eq buf src).trans (if_pos h), ?_, hsrc, _, rfl⟩
  simp only [List.length_append, List.length_cons, List.length_drop]
  omega

theorem length_lt_of_strcpy (h : strcpy buf src = some buf') : src.length < buf.length := by
  rw [strcpy_eq] at h
  by_contra hlt
  rw [if_neg hlt] at h
  contradiction

theorem Holds.strcatAt (h : Holds n buf s) (hd : d ≤ s.length) (hsrc : nul ∉ src)
    (hroom : s.length + src.length < n) :
    ∃ buf', strcatAt buf d src = some buf' ∧ Holds n buf' (s ++ src) := by
  obtain ⟨rfl, hs, t, rfl⟩ := h
  rw [List.length_append, List.length_cons] at hroom
  refine ⟨_, (strcatAt_eq hs hd).trans (if_pos (by omega)), ?_, ?_, _,
    (List.append_assoc ..).symm⟩
  · simp only [List.length_append, List.length_cons, List.length_drop]
    omega
  · rw [List.mem_append]
    rintro (hmem | hmem) <;> contradiction

theorem Holds.room_of_strcatAt (h : Holds n buf s) (hd : d ≤ s.length)
    (hcat : CString.strcatAt buf d src = some buf') : s.length + src.length < n := by
  obtain ⟨rfl, hs, t, rfl⟩ := h
  rw [strcatAt_eq hs hd] at hcat
  rw [List.length_append, List.length_cons]
  by_contra hlt
  rw [if_neg (by omega)] at hcat
  contradiction

/-- A character written over the NUL, and a new NUL behind it. -/
theorem Holds.push (h : Holds n buf s) {c : Char} (hc : c ≠ nul) (hroom : s.length + 1 < n) :
    ∃ buf₁ buf₂, write buf s.length [c] = some buf₁ ∧ write buf₁ (s.length + 1) [nul] = some buf₂ ∧
      Holds n buf₂ (s ++ [c]) := by
  obtain ⟨rfl, hs, t, rfl⟩ := h
  rw [List.length_append, List.length_cons] at hroom
  have ht : [nul].length ≤ t.length := by
    rw [List.length_singleton]
    omega
  have hfirst : write (s ++ nul :: t) s.length [c] = some (s ++ c :: t) := by
    rw [write_append, if_pos (by simp)]
    rfl
  have hsecond := write_append (s ++ [c]) t [nul]
  rw [if_pos ht, List.append_assoc, List.length_append, List.length_singleton] at hsecond
  refine ⟨_, _, hfirst, hsecond, ?_, ?_, t.drop 1, rfl⟩
  · simp only [List.length_append, List.length_cons, List.length_nil, List.length_drop]
    omega
  · rw [List.mem_append, List.mem_singleton]
    rintro (hmem | heq)
    · contradiction
    · exact hc heq.symm

theorem holds_strncpy (buf : List Char) (hsrc : nul ∉ src) (h : src.length < buf.length) :
    ∃ buf', strncpy buf src buf.length = some buf' ∧ Holds buf.length buf' src := by
  obtain ⟨k, hk⟩ := Nat.exists_eq_add_of_lt h
  have htake : (src ++ List.replicate buf.length nul).take buf.length
      = src ++ nul :: List.replicate k nul := by
    rw [List.take_append, List.take_of_length_le (Nat.le_of_lt h), List.take_replicate,
      Nat.min_eq_left (Nat.sub_le ..), show buf.length - src.length = k + 1 by omega]
    rfl
  have hlen : (src ++ nul :: List.replicate k nul).length = buf.length := by
    simp only [List.length_append, List.length_cons, List.length_replicate]
    omega
  refine ⟨src ++ nul :: List.replicate k nul, ?_, hlen, hsrc, _, rfl⟩
  have hw := write_append [] buf (src ++ nul :: List.replicate k nul)
  rw [hlen, if_pos (Nat.le_refl _), List.drop_length, List.append_nil] at hw
  rw [strncpy, htake]
  exact hw

end Strings

end CString
