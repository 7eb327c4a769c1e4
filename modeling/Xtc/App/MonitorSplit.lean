import Xtc.Lib.CString

/-!
# MonitorSplit — the words of a command line, `__internal_strtok` and `split` of `irq.c`

The line stands in an array of characters with a NUL behind it; a pointer into it is an index, and
NULL is `none`.  `__internal_strtok` cuts one token off at a time: it writes a NUL behind it and
keeps a pointer to what is left in its static variable `last`.
-/

namespace Xtc

namespace Monitor

open CString

def delim (c : Char) : Bool := c = ' '

/-- `__internal_strtok` from a pointer into the line: the token, and the line and `last` behind
the call. -/
def strtokFrom (line : List Char) (s : Nat) : Option Nat × List Char × Option Nat :=
  -- Skip leading delimiters.
  let tok := s + ((line.drop s).takeWhile delim).length
  if line.getD tok nul = nul then (none, line, none)
  else
    -- Scan token; we stop if we see the NUL, too.
    let stop := tok + ((line.drop tok).takeWhile fun c => !delim c && c ≠ nul).length
    if line.getD stop nul = nul then (some tok, line, none)
    else (some tok, line.set stop nul, some (stop + 1))

/-- `__internal_strtok(s, " ")`. -/
def strtok (line : List Char) (s last : Option Nat) : Option Nat × List Char × Option Nat :=
  match s, last with
  | some s, _ => strtokFrom line s
  | none, some last => strtokFrom line last
  | none, none => (none, line, none)

/-- What `split` leaves behind; the entries of `target` past the end of `tokens` are not set. -/
structure Split where
  ret : Int
  tokens : List (Option Nat)
  line : List Char
  last : Option Nat

/-- The loop of `split`, with `room` entries of `target` left to be set. -/
def splitLoop : Nat → List Char → Option Nat → List (Option Nat) → Split
  | 0, line, last, target => ⟨-1, target, line, last⟩
  | room + 1, line, last, target =>
    let t := strtok line none last
    let target := target ++ [t.1]
    if room = 0 then ⟨-1, target, t.2.1, t.2.2⟩
    else if t.1.isSome then splitLoop room t.2.1 t.2.2 target
    else ⟨target.length, target, t.2.1, t.2.2⟩

def split (line : List Char) (last : Option Nat) (size : Nat) : Split :=
  let t := strtok line (some 0) last
  splitLoop (size - 1) t.2.1 t.2.2 [t.1]

/-! ## Words -/

def words (s : List Char) : List (List Char) := (s.splitOnP delim).filter (· ≠ [])

section Words

variable {gap w s : List Char}

theorem delim_of_ne {c : Char} (h : c ≠ ' ') : delim c = false := decide_eq_false h

theorem words_space (s : List Char) : words (' ' :: s) = words s := by
  have hsplit := List.splitOnP_append_cons_of_forall_mem (p := delim) (List.forall_mem_nil _) ' '
    rfl s
  rw [List.nil_append] at hsplit
  rw [words, hsplit, List.filter_cons_of_neg (by simp)]
  rfl

theorem words_gap (hgap : ∀ c ∈ gap, c = ' ') (s : List Char) : words (gap ++ s) = words s := by
  induction gap with
  | nil => rfl
  | cons c gap ih =>
    rw [List.forall_mem_cons] at hgap
    rw [hgap.1, List.cons_append, words_space, ih hgap.2]

@[simp] theorem words_nil : words [] = [] := rfl

theorem words_last (hne : w ≠ []) (hw : ∀ c ∈ w, c ≠ ' ') : words w = [w] := by
  rw [words, List.splitOnP_eq_singleton fun c hc => delim_of_ne (hw c hc)]
  simp [hne]

theorem words_first (hne : w ≠ []) (hw : ∀ c ∈ w, c ≠ ' ') (s : List Char) :
    words (w ++ ' ' :: s) = w :: words s := by
  rw [words, List.splitOnP_append_cons_of_forall_mem (fun c hc => delim_of_ne (hw c hc)) ' ' rfl,
    List.filter_cons_of_pos (by simpa using hne)]
  rfl

/-- A line is blank, or has a first word that ends with the line or at a space. -/
theorem first_word (s : List Char) : (∀ c ∈ s, c = ' ') ∨
    ∃ gap w, (∀ c ∈ gap, c = ' ') ∧ w ≠ [] ∧ (∀ c ∈ w, c ≠ ' ') ∧
      (s = gap ++ w ∨ ∃ s', s = gap ++ (w ++ ' ' :: s')) := by
  induction s with
  | nil => simp
  | cons c s ih =>
    by_cases hc : c = ' '
    · rcases ih with hall | ⟨gap, w, hgap, hne, hw, hs⟩
      · left
        exact List.forall_mem_cons.mpr ⟨hc, hall⟩
      · right
        refine ⟨c :: gap, w, List.forall_mem_cons.mpr ⟨hc, hgap⟩, hne, hw, ?_⟩
        rcases hs with rfl | ⟨s', rfl⟩
        · exact Or.inl rfl
        · exact Or.inr ⟨s', rfl⟩
    · right
      rcases ih with hall | ⟨gap, w, hgap, hne, hw, hs⟩
      · cases s with
        | nil => exact ⟨[], [c], by simp, by simp, by simpa using hc, Or.inl rfl⟩
        | cons b s =>
          obtain rfl : b = ' ' := hall b (by simp)
          exact ⟨[], [c], by simp, by simp, by simpa using hc, Or.inr ⟨s, rfl⟩⟩
      · cases gap with
        | nil =>
          refine ⟨[], c :: w, by simp, by simp, List.forall_mem_cons.mpr ⟨hc, hw⟩, ?_⟩
          rcases hs with rfl | ⟨s', rfl⟩
          · exact Or.inl rfl
          · exact Or.inr ⟨s', rfl⟩
        | cons b gap =>
          rw [List.forall_mem_cons] at hgap
          obtain ⟨rfl, -⟩ := hgap
          refine ⟨[], [c], by simp, by simp, by simpa using hc, Or.inr ?_⟩
          rcases hs with rfl | ⟨s', rfl⟩
          · exact ⟨gap ++ w, rfl⟩
          · exact ⟨gap ++ (w ++ ' ' :: s'), rfl⟩

theorem words_eq_nil_iff : words s = [] ↔ ∀ c ∈ s, c = ' ' := by
  constructor
  · intro h
    rcases first_word s with hall | ⟨gap, w, hgap, hne, hw, rfl | ⟨s', rfl⟩⟩
    · exact hall
    · rw [words_gap hgap, words_last hne hw] at h
      contradiction
    · rw [words_gap hgap, words_first hne hw] at h
      contradiction
  · intro h
    have := words_gap h []
    rwa [List.append_nil] at this

end Words

/-! ## One token -/

section Token

variable {pre gap w x : List Char} {c : Char} {p : Char → Bool}

theorem takeWhile_drop (hgap : ∀ b ∈ gap, p b = true) (hc : p c = false) :
    ((pre ++ (gap ++ c :: x)).drop pre.length).takeWhile p = gap := by
  rw [List.drop_left, List.takeWhile_append_of_pos hgap, List.takeWhile_cons_of_neg (by simp [hc]),
    List.append_nil]

theorem getD_stop (pre gap x : List Char) (c : Char) :
    (pre ++ (gap ++ c :: x)).getD (pre.length + gap.length) nul = c := by
  rw [← List.append_assoc, ← List.length_append, List.getD_eq_getElem?_getD,
    List.getElem?_append_right le_rfl, Nat.sub_self]
  rfl

theorem set_stop (pre gap x : List Char) (c d : Char) :
    (pre ++ (gap ++ c :: x)).set (pre.length + gap.length) d = pre ++ (gap ++ d :: x) := by
  rw [← List.append_assoc, ← List.length_append, List.set_append_right _ _ le_rfl, Nat.sub_self,
    List.append_assoc]
  rfl

theorem strtokFrom_blank (hgap : ∀ b ∈ gap, b = ' ') :
    strtokFrom (pre ++ (gap ++ nul :: x)) pre.length =
      (none, pre ++ (gap ++ nul :: x), none) := by
  have htok : ((pre ++ (gap ++ nul :: x)).drop pre.length).takeWhile delim = gap :=
    takeWhile_drop (fun b hb => by simp [delim, hgap b hb]) rfl
  simp only [strtokFrom, htok, getD_stop, if_true]

variable (pre x) in
/-- A token and the character that ends it. -/
theorem strtokFrom_token (hgap : ∀ b ∈ gap, b = ' ') (hne : w ≠ [])
    (hw : ∀ b ∈ w, b ≠ ' ' ∧ b ≠ nul) (hc : c = ' ' ∨ c = nul) :
    strtokFrom (pre ++ (gap ++ (w ++ c :: x))) pre.length =
      if c = nul then (some (pre ++ gap).length, pre ++ (gap ++ (w ++ c :: x)), none)
      else (some (pre ++ gap).length, pre ++ (gap ++ (w ++ nul :: x)),
        some (pre ++ (gap ++ (w ++ [nul]))).length) := by
  obtain ⟨b, w', rfl⟩ := List.exists_cons_of_ne_nil hne
  have hb := hw b (by simp)
  have htok : ((pre ++ (gap ++ (b :: w' ++ c :: x))).drop pre.length).takeWhile delim = gap :=
    takeWhile_drop (fun b hb => by simp [delim, hgap b hb]) (delim_of_ne hb.1)
  have hhead : (pre ++ (gap ++ (b :: w' ++ c :: x))).getD (pre.length + gap.length) nul = b :=
    getD_stop pre gap (w' ++ c :: x) b
  -- the rest of the scan starts behind the gap
  generalize hw' : b :: w' = w at hw htok hhead
  have hscan : ((pre ++ (gap ++ (w ++ c :: x))).drop (pre.length + gap.length)).takeWhile
      (fun c => !delim c && c ≠ nul) = w := by
    rw [← List.length_append, ← List.append_assoc]
    apply takeWhile_drop
    · intro b hb
      simp [delim, hw b hb]
    · rcases hc with rfl | rfl <;> rfl
  have hstop :
      (pre ++ (gap ++ (w ++ c :: x))).getD (pre.length + gap.length + w.length) nul = c := by
    rw [← List.length_append, ← List.append_assoc]
    exact getD_stop (pre ++ gap) w x c
  have hset : (pre ++ (gap ++ (w ++ c :: x))).set (pre.length + gap.length + w.length) nul =
      pre ++ (gap ++ (w ++ nul :: x)) := by
    rw [← List.length_append, ← List.append_assoc, set_stop, List.append_assoc]
  simp only [strtokFrom, htok, hhead, if_neg hb.2, hscan, hstop, hset]
  simp only [List.length_append, List.length_singleton, Nat.add_assoc]

end Token

/-! ## The tokens of a line -/

/-- The word `w` stands at index `q`, with its NUL, and all of it in `pre`. -/
def TokenIn (pre : List Char) (q : Nat) (w : List Char) : Prop :=
  ∃ a b, pre = a ++ (w ++ nul :: b) ∧ a.length = q

/-- What is left for the next calls: nothing, or the words `ws` behind `pre`.  The characters of
`pre` are not written any more. -/
def Left (pre line : List Char) (last : Option Nat) (ws : List (List Char)) : Prop :=
  last = none ∧ ws = [] ∧ pre <+: line ∨
    ∃ s x, last = some pre.length ∧ line = pre ++ (s ++ nul :: x) ∧ nul ∉ s ∧ words s = ws

section Tokens

variable {pre line w : List Char} {last : Option Nat} {ws : List (List Char)} {q : Nat}

theorem Left.isPrefix (h : Left pre line last ws) : pre <+: line := by
  rcases h with ⟨-, -, h⟩ | ⟨s, x, -, rfl, -⟩
  · exact h
  · exact List.prefix_append ..

theorem TokenIn.mono (h : TokenIn pre q w) (hpre : pre <+: line) : TokenIn line q w := by
  obtain ⟨a, b, rfl, hq⟩ := h
  obtain ⟨x, rfl⟩ := hpre
  exact ⟨a, b ++ x, by simp, hq⟩

/-- What is read at a token. -/
theorem TokenIn.string (h : TokenIn line q w) (hw : nul ∉ w) : string (line.drop q) = w := by
  obtain ⟨a, b, rfl, rfl⟩ := h
  rw [List.drop_left, string_append hw, string_nul, List.append_nil]

theorem Left.strtok_nil (h : Left pre line last []) :
    strtok line none last = (none, line, none) := by
  rcases h with ⟨rfl, -, -⟩ | ⟨s, x, rfl, rfl, -, hs⟩
  · rfl
  · exact strtokFrom_blank (words_eq_nil_iff.mp hs)

/-- The next word is cut off, and the others are left. -/
theorem Left.strtok_cons (h : Left pre line last (w :: ws)) :
    ∃ q pre' line' last', strtok line none last = (some q, line', last') ∧ pre <+: pre' ∧
      TokenIn pre' q w ∧ nul ∉ w ∧ Left pre' line' last' ws := by
  rcases h with ⟨-, h, -⟩ | ⟨s, x, rfl, rfl, hs, hws⟩
  · contradiction
  · show ∃ q pre' line' last', strtokFrom _ _ = _ ∧ _
    rcases first_word s with hall | ⟨gap, v, hgap, hne, hv, rfl | ⟨s', rfl⟩⟩
    · rw [words_eq_nil_iff.mpr hall] at hws
      contradiction
    · -- the last word, with the NUL of the line behind it
      rw [words_gap hgap, words_last hne hv] at hws
      obtain ⟨rfl, rfl⟩ := List.cons.inj hws
      have hnul : nul ∉ v := fun hmem => hs (List.mem_append_right _ hmem)
      have htok := strtokFrom_token pre x hgap hne
        (fun b hb => ⟨hv b hb, fun heq => hnul (heq ▸ hb)⟩) (Or.inr rfl)
      rw [if_pos rfl] at htok
      rw [List.append_assoc gap]
      refine ⟨_, pre ++ (gap ++ (v ++ [nul])), _, _, htok, List.prefix_append .., ?_, hnul, ?_⟩
      · exact ⟨pre ++ gap, [], by simp, rfl⟩
      · exact Or.inl ⟨rfl, rfl, x, by simp⟩
    · -- a word with a space behind it, which becomes its NUL
      rw [words_gap hgap, words_first hne hv] at hws
      obtain ⟨rfl, rfl⟩ := List.cons.inj hws
      have hnul : nul ∉ v := fun hmem =>
        hs (List.mem_append_right _ (List.mem_append_left _ hmem))
      have hrest : nul ∉ s' := fun hmem =>
        hs (List.mem_append_right _ (List.mem_append_right _ (List.mem_cons_of_mem _ hmem)))
      have htok := strtokFrom_token pre (s' ++ nul :: x) hgap hne
        (fun b hb => ⟨hv b hb, fun heq => hnul (heq ▸ hb)⟩) (Or.inl rfl)
      rw [if_neg (by decide)] at htok
      rw [List.append_assoc gap, List.append_assoc v, List.cons_append]
      refine ⟨_, pre ++ (gap ++ (v ++ [nul])), _, _, htok, List.prefix_append .., ?_, hnul, ?_⟩
      · exact ⟨pre ++ gap, [], by simp, rfl⟩
      · exact Or.inr ⟨s', x, rfl, by simp, hrest, rfl⟩

/-- The tokens stored are pointers to these words. -/
def Stored (pre : List Char) (target : List (Option Nat)) (ws : List (List Char)) : Prop :=
  List.Forall₂ (fun t w => ∃ q, t = some q ∧ TokenIn pre q w ∧ nul ∉ w) target ws

theorem Stored.mono {target : List (Option Nat)} (h : Stored pre target ws) (hpre : pre <+: line) :
    Stored line target ws :=
  h.imp fun _ _ ⟨q, hq, htok, hw⟩ => ⟨q, hq, htok.mono hpre, hw⟩

/-- The loop stores the words that are left and a NULL behind them, if it does not run out of room
first; the NULL needs an entry that is not the last. -/
theorem splitLoop_spec {room : Nat} {target : List (Option Nat)} {done : List (List Char)}
    (hroom : 0 < room) (h : Left pre line last ws) (hdone : Stored pre target done) :
    (room ≤ ws.length + 1 → (splitLoop room line last target).ret = -1) ∧
      (ws.length + 1 < room →
        (splitLoop room line last target).ret = target.length + ws.length + 1 ∧
        ∃ ptrs, (splitLoop room line last target).tokens = ptrs ++ [none] ∧
          Stored (splitLoop room line last target).line ptrs (done ++ ws)) := by
  induction room generalizing pre line last ws target done with
  | zero => contradiction
  | succ room ih =>
    cases ws with
    | nil =>
      rw [splitLoop, h.strtok_nil]
      simp only [Option.isSome_none, Bool.false_eq_true, if_false, List.length_nil]
      constructor
      · intro hle
        rw [if_pos (by omega)]
      · intro hlt
        rw [if_neg (by omega)]
        refine ⟨by simp, target, rfl, ?_⟩
        rw [List.append_nil]
        exact hdone.mono h.isPrefix
    | cons w ws =>
      obtain ⟨q, pre', line', last', hstr, hpre, htok, hw, hleft⟩ := h.strtok_cons
      rw [splitLoop, hstr]
      simp only [Option.isSome_some, if_true, List.length_cons]
      have hdone' : Stored pre' (target ++ [some q]) (done ++ [w]) :=
        List.rel_append (hdone.mono hpre) (.cons ⟨q, rfl, htok, hw⟩ .nil)
      by_cases hzero : room = 0
      · rw [if_pos hzero]
        exact ⟨fun _ => rfl, fun hlt => by omega⟩
      · rw [if_neg hzero]
        obtain ⟨hfull, hfits⟩ := ih (by omega) hleft hdone'
        constructor
        · intro hle
          exact hfull (by omega)
        · intro hlt
          obtain ⟨hret, ptrs, htokens, hstored⟩ := hfits (by omega)
          refine ⟨?_, ptrs, htokens, by rwa [List.append_assoc] at hstored⟩
          rw [hret, List.length_append, List.length_singleton]
          push_cast
          omega

/-! ## The line -/

section Line

variable {s x : List Char} {size : Nat} (stale : Option Nat)

theorem left_start (hs : nul ∉ s) : Left [] (s ++ nul :: x) (some 0) (words s) :=
  Or.inr ⟨s, x, rfl, rfl, hs, rfl⟩

/-- A blank line: two entries are set, and both to NULL. -/
theorem split_blank (hs : nul ∉ s) (hsize : 2 < size) (hws : words s = []) :
    (split (s ++ nul :: x) stale size).ret = 2 ∧
      (split (s ++ nul :: x) stale size).tokens = [none, none] := by
  have hfirst : strtok (s ++ nul :: x) (some 0) stale = (none, s ++ nul :: x, none) :=
    (hws ▸ left_start hs : Left [] _ _ []).strtok_nil
  obtain ⟨room, rfl⟩ : ∃ room, size = room + 3 := ⟨size - 3, by omega⟩
  simp only [split, hfirst]
  exact ⟨rfl, rfl⟩

/-- The first token is always stored; how the loop goes on is a matter of room. -/
theorem split_words {ws : List (List Char)} (hs : nul ∉ s) (hsize : 2 ≤ size) (hws : words s = ws)
    (hne : ws ≠ []) :
    (size ≤ ws.length + 1 → (split (s ++ nul :: x) stale size).ret = -1) ∧
      (ws.length + 1 < size →
        (split (s ++ nul :: x) stale size).ret = ws.length + 1 ∧
        ∃ ptrs, (split (s ++ nul :: x) stale size).tokens = ptrs ++ [none] ∧
          Stored (split (s ++ nul :: x) stale size).line ptrs ws) := by
  obtain ⟨w, ws, rfl⟩ := List.exists_cons_of_ne_nil hne
  have hstart : Left [] (s ++ nul :: x) (some 0) (w :: ws) := hws ▸ left_start hs
  obtain ⟨q, pre, line, last, hstr, -, htok, hw, hleft⟩ := hstart.strtok_cons
  have hfirst : strtok (s ++ nul :: x) (some 0) stale = (some q, line, last) := hstr
  obtain ⟨hfull, hfits⟩ := splitLoop_spec (show 0 < size - 1 by omega) hleft
    (.cons ⟨q, rfl, htok, hw⟩ .nil)
  simp only [split, hfirst, List.length_cons]
  constructor
  · intro hle
    exact hfull (by omega)
  · intro hlt
    obtain ⟨hret, hrest⟩ := hfits (by omega)
    refine ⟨?_, hrest⟩
    rw [hret]
    push_cast
    rw [List.length_singleton]
    omega

end Line

end Tokens

end Monitor

end Xtc
