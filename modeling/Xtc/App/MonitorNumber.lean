import Xtc.Lib.CString

/-!
# MonitorNumber — the numbers of the exception monitor, `mystrtol` and `parseinteger` of `irq.c`

A string is the list of its characters in front of the NUL.  The digits are added up from the last
to the first, with a power of the base that wraps around like the sum itself.
-/

namespace Xtc

namespace Monitor

open CString

/-- The `unsigned` of the target. -/
abbrev Unsigned := BitVec 32

def digit (c : Char) : Option Nat :=
  let ival := c.toNat
  if '0'.toNat ≤ ival ∧ ival ≤ '9'.toNat then some (ival - '0'.toNat)
  else if 'a'.toNat ≤ ival ∧ ival ≤ 'f'.toNat then some (ival - 'a'.toNat + 10)
  else if 'A'.toNat ≤ ival ∧ ival ≤ 'F'.toNat then some (ival - 'A'.toNat + 10)
  else none

/-- `while (strep[1]) strep++`: the index of the last character. -/
def moveToEnd : List Char → Nat
  | _ :: c :: cs => moveToEnd (c :: cs) + 1
  | _ => 0

/-- The loop of `mystrtol`, with the character at index `strep` next. -/
def accumulate (str : List Char) (base strep : Nat) (v exp : Unsigned) : Option Unsigned :=
  match digit (str.getD strep nul) with
  | none => none
  | some ival =>
    if ival > base - 1 then none
    else
      let v := v + exp * BitVec.ofNat 32 ival
      let exp := exp * BitVec.ofNat 32 base
      match strep with
      | 0 => some v
      | strep + 1 => accumulate str base strep v exp

/-- `mystrtol`: the value returned, and `*dest` behind it. -/
def mystrtol (str : Option (List Char)) (dest : Unsigned) (base : Nat) : Int × Unsigned :=
  match str with
  | none => (-1, dest)
  | some [] => (-1, dest)
  | some str =>
    match accumulate str base (moveToEnd str) 0 1 with
    | none => (-1, dest)
    | some v => (0, v)

/-- The base and the digits of a number. -/
def baseAndDigits : List Char → Nat × List Char
  | '0' :: 'x' :: str => (16, str)
  | str => (10, str)

/-- `parseinteger`; what `*dest` holds before the call is lost. -/
def parseinteger (str : List Char) (_dest : Unsigned) : Int × Unsigned :=
  let number := baseAndDigits str
  let parsed := mystrtol (some number.2) 0 number.1
  if parsed.1 < 0 then (-1, parsed.2) else (0, parsed.2)

/-! ## Numerals -/

def IsDecimalDigit (c : Char) : Prop := '0' ≤ c ∧ c ≤ '9'

def IsHexDigit (c : Char) : Prop := IsDecimalDigit c ∨ 'a' ≤ c ∧ c ≤ 'f' ∨ 'A' ≤ c ∧ c ≤ 'F'

def digitValue (c : Char) : Nat := "0123456789abcdef".toList.idxOf c.toLower

def value (base : Nat) (s : List Char) : Nat := s.foldl (fun n c => base * n + digitValue c) 0

inductive Denotes : List Char → Nat → Prop
  | decimal {s} : s ≠ [] → (∀ c ∈ s, IsDecimalDigit c) → Denotes s (value 10 s)
  | hexadecimal {s} : s ≠ [] → (∀ c ∈ s, IsHexDigit c) → Denotes ('0' :: 'x' :: s) (value 16 s)

/-! ## Digits -/

theorem isDecimalDigit_iff {c : Char} : IsDecimalDigit c ↔ 48 ≤ c.toNat ∧ c.toNat ≤ 57 := by
  simp only [IsDecimalDigit, Char.le_def, UInt32.le_iff_toNat_le]
  exact Iff.rfl

theorem isHexDigit_iff {c : Char} : IsHexDigit c ↔
    48 ≤ c.toNat ∧ c.toNat ≤ 57 ∨ 97 ≤ c.toNat ∧ c.toNat ≤ 102 ∨ 65 ≤ c.toNat ∧ c.toNat ≤ 70 := by
  simp only [IsHexDigit, IsDecimalDigit, Char.le_def, UInt32.le_iff_toNat_le]
  exact Iff.rfl

theorem digit_eq (c : Char) : digit c =
    if 48 ≤ c.toNat ∧ c.toNat ≤ 57 then some (c.toNat - 48)
    else if 97 ≤ c.toNat ∧ c.toNat ≤ 102 then some (c.toNat - 97 + 10)
    else if 65 ≤ c.toNat ∧ c.toNat ≤ 70 then some (c.toNat - 65 + 10)
    else none := rfl

theorem digit_ascii : ∀ n < 128, digit (Char.ofNat n) = none ∨
    digit (Char.ofNat n) = some (digitValue (Char.ofNat n)) := by decide +kernel

theorem digitValue_of_digit {c : Char} {v : Nat} (h : digit c = some v) : digitValue c = v := by
  have hc : c.toNat < 128 := by
    rw [digit_eq] at h
    by_contra hlarge
    rw [if_neg (by omega), if_neg (by omega), if_neg (by omega)] at h
    contradiction
  have hascii := digit_ascii c.toNat hc
  rw [Char.ofNat_toNat, h] at hascii
  simpa [eq_comm] using hascii

def Accepted (base : Nat) (c : Char) : Prop := ∃ v, digit c = some v ∧ v ≤ base - 1

theorem accepted_ten {c : Char} : Accepted 10 c ↔ IsDecimalDigit c := by
  rw [Accepted, digit_eq, isDecimalDigit_iff]
  split_ifs <;> simp <;> omega

theorem accepted_sixteen {c : Char} : Accepted 16 c ↔ IsHexDigit c := by
  rw [Accepted, digit_eq, isHexDigit_iff]
  split_ifs <;> simp <;> omega

/-! ## The loop -/

section Loop

variable {str : List Char} {base strep : Nat}

theorem moveToEnd_eq : ∀ str : List Char, moveToEnd str = str.length - 1
  | [] => rfl
  | [_] => rfl
  | _ :: c :: cs => by
    rw [moveToEnd, moveToEnd_eq (c :: cs)]
    simp

theorem value_concat (s : List Char) (c : Char) :
    value base (s ++ [c]) = base * value base s + digitValue c := by
  rw [value, List.foldl_append]
  rfl

theorem take_getD (hlt : strep < str.length) :
    str.take (strep + 1) = str.take strep ++ [str.getD strep nul] := by
  rw [List.take_add_one, List.getD_eq_getElem?_getD, List.getElem?_eq_getElem hlt]
  rfl

theorem accumulate_refused (v exp : Unsigned) (h : ¬ Accepted base (str.getD strep nul)) :
    accumulate str base strep v exp = none := by
  unfold accumulate
  cases hd : digit (str.getD strep nul) with
  | none => rfl
  | some ival =>
    have hlarge : ival > base - 1 := by
      by_contra hle
      exact h ⟨ival, hd, by omega⟩
    exact if_pos hlarge

theorem accumulate_zero (v exp : Unsigned) (h : Accepted base (str.getD 0 nul)) :
    accumulate str base 0 v exp =
      some (v + exp * BitVec.ofNat 32 (digitValue (str.getD 0 nul))) := by
  obtain ⟨ival, hd, hle⟩ := h
  rw [digitValue_of_digit hd, accumulate, hd]
  exact if_neg (by omega)

theorem accumulate_succ (v exp : Unsigned) (h : Accepted base (str.getD (strep + 1) nul)) :
    accumulate str base (strep + 1) v exp =
      accumulate str base strep
        (v + exp * BitVec.ofNat 32 (digitValue (str.getD (strep + 1) nul)))
        (exp * BitVec.ofNat 32 base) := by
  obtain ⟨ival, hd, hle⟩ := h
  rw [digitValue_of_digit hd, accumulate, hd]
  exact if_neg (by omega)

/-- What is left to add is the number in front of `strep`, times the power reached. -/
theorem accumulate_of_forall (v exp : Unsigned) (hlt : strep < str.length)
    (h : ∀ c ∈ str.take (strep + 1), Accepted base c) :
    accumulate str base strep v exp =
      some (v + exp * BitVec.ofNat 32 (value base (str.take (strep + 1)))) := by
  induction strep generalizing v exp with
  | zero =>
    rw [take_getD hlt] at h ⊢
    rw [accumulate_zero v exp (h _ (by simp)), value_concat]
    simp [value]
  | succ strep ih =>
    rw [take_getD hlt] at h ⊢
    rw [accumulate_succ v exp (h _ (by simp)), value_concat]
    rw [ih _ _ (by omega) fun c hc => h c (List.mem_append_left _ hc)]
    rw [BitVec.ofNat_add, BitVec.ofNat_mul, BitVec.mul_add, BitVec.mul_assoc, BitVec.add_assoc,
      BitVec.add_comm (exp * BitVec.ofNat 32 (digitValue _))]

/-- One character that is no digit of the base is enough. -/
theorem accumulate_of_not_accepted (v exp : Unsigned) (hlt : strep < str.length) {c : Char}
    (hc : c ∈ str.take (strep + 1)) (h : ¬ Accepted base c) :
    accumulate str base strep v exp = none := by
  induction strep generalizing v exp with
  | zero =>
    rw [take_getD hlt] at hc
    obtain rfl : c = str.getD 0 nul := by simpa using hc
    exact accumulate_refused v exp h
  | succ strep ih =>
    by_cases hlast : Accepted base (str.getD (strep + 1) nul)
    · rw [accumulate_succ v exp hlast]
      apply ih _ _ (by omega)
      rw [take_getD hlt, List.mem_append, List.mem_singleton] at hc
      refine hc.resolve_right ?_
      rintro rfl
      exact h hlast
    · exact accumulate_refused v exp hlast

end Loop

/-! ## The parser -/

section Parser

variable {str : List Char} {base : Nat}

theorem mystrtol_eq (dest : Unsigned) (hne : str ≠ []) : mystrtol (some str) dest base =
    match accumulate str base (str.length - 1) 0 1 with
    | none => (-1, dest)
    | some v => (0, v) := by
  cases str with
  | nil => contradiction
  | cons c cs =>
    rw [← moveToEnd_eq]
    rfl

theorem mystrtol_of_forall (dest : Unsigned) (hne : str ≠ []) (h : ∀ c ∈ str, Accepted base c) :
    mystrtol (some str) dest base = (0, BitVec.ofNat 32 (value base str)) := by
  have hpos := List.length_pos_of_ne_nil hne
  have hall : str.take (str.length - 1 + 1) = str := List.take_of_length_le (by omega)
  rw [mystrtol_eq dest hne, accumulate_of_forall 0 1 (by omega) (hall.symm ▸ h), hall]
  simp

theorem mystrtol_of_not_accepted (dest : Unsigned) {c : Char} (hc : c ∈ str)
    (h : ¬ Accepted base c) : mystrtol (some str) dest base = (-1, dest) := by
  have hpos := List.length_pos_of_mem hc
  have hall : str.take (str.length - 1 + 1) = str := List.take_of_length_le (by omega)
  rw [mystrtol_eq dest (List.ne_nil_of_mem hc),
    accumulate_of_not_accepted 0 1 (by omega) (hall.symm ▸ hc) h]

theorem mystrtol_cases (base : Nat) (str : List Char) :
    str ≠ [] ∧ (∀ c ∈ str, Accepted base c) ∧
        mystrtol (some str) 0 base = (0, BitVec.ofNat 32 (value base str)) ∨
      ¬ (str ≠ [] ∧ ∀ c ∈ str, Accepted base c) ∧ mystrtol (some str) 0 base = (-1, 0) := by
  by_cases hne : str = []
  · right
    rw [hne]
    exact ⟨fun h => h.1 rfl, rfl⟩
  · by_cases hall : ∀ c ∈ str, Accepted base c
    · exact Or.inl ⟨hne, hall, mystrtol_of_forall 0 hne hall⟩
    · right
      refine ⟨fun h => hall h.2, ?_⟩
      push Not at hall
      obtain ⟨c, hc, hnot⟩ := hall
      exact mystrtol_of_not_accepted 0 hc hnot

theorem parseinteger_eq (dest : Unsigned) :
    parseinteger str dest = mystrtol (some (baseAndDigits str).2) 0 (baseAndDigits str).1 := by
  simp only [parseinteger]
  rcases mystrtol_cases (baseAndDigits str).1 (baseAndDigits str).2 with ⟨-, -, h⟩ | ⟨-, h⟩
  · rw [h]
    rfl
  · rw [h]
    rfl

theorem baseAndDigits_cases (str : List Char) :
    (∃ t, str = '0' :: 'x' :: t ∧ baseAndDigits str = (16, t)) ∨ baseAndDigits str = (10, str) := by
  unfold baseAndDigits
  split
  next t => exact Or.inl ⟨t, rfl, rfl⟩
  next => exact Or.inr rfl

/-- The strings with a value are those whose digits all belong to the base in front of them. -/
theorem denotes_iff {n : Nat} : Denotes str n ↔
    ((baseAndDigits str).2 ≠ [] ∧ ∀ c ∈ (baseAndDigits str).2, Accepted (baseAndDigits str).1 c) ∧
      n = value (baseAndDigits str).1 (baseAndDigits str).2 := by
  constructor
  · rintro (⟨hne, hall⟩ | ⟨hne, hall⟩)
    · have hbase : baseAndDigits str = (10, str) := by
        rcases baseAndDigits_cases str with ⟨t, rfl, -⟩ | hten
        · -- the `x` of the other base is no decimal digit
          have hx := isDecimalDigit_iff.mp (hall 'x' (by simp))
          exact absurd hx (by decide)
        · exact hten
      rw [hbase]
      exact ⟨⟨hne, fun c hc => accepted_ten.mpr (hall c hc)⟩, rfl⟩
    · exact ⟨⟨hne, fun c hc => accepted_sixteen.mpr (hall c hc)⟩, rfl⟩
  · rintro ⟨⟨hne, hall⟩, rfl⟩
    rcases baseAndDigits_cases str with ⟨t, rfl, hbase⟩ | hbase
    · rw [hbase] at hne hall ⊢
      exact .hexadecimal hne fun c hc => accepted_sixteen.mp (hall c hc)
    · rw [hbase] at hne hall ⊢
      exact .decimal hne fun c hc => accepted_ten.mp (hall c hc)

theorem parseinteger_cases (str : List Char) (dest : Unsigned) :
    (∃ n, Denotes str n ∧ parseinteger str dest = (0, BitVec.ofNat 32 n)) ∨
      (¬ ∃ n, Denotes str n) ∧ parseinteger str dest = (-1, 0) := by
  rw [parseinteger_eq]
  simp only [denotes_iff, exists_and_left, exists_eq, and_true]
  rcases mystrtol_cases (baseAndDigits str).1 (baseAndDigits str).2 with ⟨hne, hall, h⟩ | ⟨hnot, h⟩
  · exact Or.inl ⟨_, ⟨⟨hne, hall⟩, rfl⟩, h⟩
  · exact Or.inr ⟨hnot, h⟩

theorem Denotes.unique {n m : Nat} (h : Denotes str n) (h' : Denotes str m) : n = m := by
  rw [denotes_iff] at h h'
  rw [h.2, h'.2]

theorem parseinteger_lt_iff (str : List Char) (dest : Unsigned) :
    (parseinteger str dest).1 < 0 ↔ ¬ ∃ n, Denotes str n := by
  rcases parseinteger_cases str dest with ⟨n, hn, h⟩ | ⟨hno, h⟩
  · rw [h]
    exact ⟨fun hlt => absurd hlt (lt_irrefl 0), fun hno => absurd ⟨n, hn⟩ hno⟩
  · rw [h]
    exact ⟨fun _ => hno, fun _ => by decide⟩

end Parser

/-- The parser is exact: it takes the strings that stand for a number and no others. -/
theorem parseinteger_exact (s : List Char) (d : Unsigned) :
    ((parseinteger s d).1 = 0 ↔ ∃ n, Denotes s n) ∧
      (∀ n, Denotes s n → parseinteger s d = (0, BitVec.ofNat 32 n)) ∧
      ((¬ ∃ n, Denotes s n) → parseinteger s d = (-1, 0)) := by
  rcases parseinteger_cases s d with ⟨n, hn, h⟩ | ⟨hno, h⟩
  · rw [h]
    refine ⟨⟨fun _ => ⟨n, hn⟩, fun _ => rfl⟩, ?_, fun hno => absurd ⟨n, hn⟩ hno⟩
    intro m hm
    rw [hn.unique hm]
  · rw [h]
    refine ⟨⟨fun hret => absurd hret (by decide), fun hs => absurd hs hno⟩, ?_, fun _ => rfl⟩
    intro m hm
    exact absurd ⟨m, hm⟩ hno

example : parseinteger "0xFf".toList 7 = (0, 255) ∧ parseinteger "12a".toList 7 = (-1, 0) := by
  decide

end Monitor

end Xtc
