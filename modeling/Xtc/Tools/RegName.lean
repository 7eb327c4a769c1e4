import Xtc.Tools.Disassemble
import Xtc.Lib.CString

/-!
# RegName — `parse_reg` of `tc-xtc.c`

The name of a register at the start of a text.  A text is what the memory holds from a pointer on:
the characters of a string, its NUL and whatever stands behind it.  The pointer returned is an
index into the text; it may lie behind the NUL.
-/

namespace Xtc.Tools.Text

open CString (nul)

/-! ## Characters -/

def charAt (s : List Char) (i : Nat) : Char := s.getD i nul

def isSpace (c : Char) : Bool := c = ' ' || (9 ≤ c.toNat && c.toNat ≤ 13)

/-- `is_part_of_name` with the table `lex_type` of `read.c`. -/
def isPartOfName (c : Char) : Bool :=
  c.isAlphanum || c = '_' || c = '.' || c = '$' || 128 ≤ c.toNat

/-- `strncasecmp (s, name, n) == 0` for a name in small letters. -/
def startsNoCase (s name : List Char) (n : Nat) : Bool :=
  (s.map Char.toLower).take n == name.take n

/-! ## The parser -/

inductive RegError
  | registerExpected
  | invalidNumber
  deriving DecidableEq

/-- What `parse_reg` reports, `*reg` and the pointer it returns. -/
structure ParsedReg where
  errors : List RegError
  reg : Fin 32
  next : Nat
  deriving DecidableEq

/-- The test against `MIN_REGNUM` and `MAX_REGNUM`. -/
def numbered (errors : List RegError) (tmpreg next : Nat) : ParsedReg :=
  if h : tmpreg ≤ 31 then ⟨errors, ⟨tmpreg, by omega⟩, next⟩
  else ⟨errors ++ [.invalidNumber], 0, next⟩

def digit (c : Char) : Nat := c.toNat - 48

/-- The branch of names that start with `r`. -/
def parseNumber (s : List Char) : ParsedReg :=
  if (charAt s 1).isDigit && (charAt s 2).isDigit then
    numbered [] (digit (charAt s 1) * 10 + digit (charAt s 2)) 3
  else if (charAt s 1).isDigit then
    numbered [] (digit (charAt s 1)) 2
  else
    numbered [.registerExpected] 0 0

/-- `parse_reg` behind the white space. -/
def parseName (s : List Char) : ParsedReg :=
  if startsNoCase s ['y'] 1 then ⟨[], 16, 1⟩
  -- two characters are compared and three are skipped, or four
  else if startsNoCase s ['p', 's', 'r'] 2 then ⟨[], 17, 3⟩
  else if startsNoCase s ['s', 'p', 's', 'r'] 2 then ⟨[], 18, 4⟩
  else if startsNoCase s ['t', 'r'] 2 then ⟨[], 19, 2⟩
  else if startsNoCase s ['t', 'p', 'c'] 3 then ⟨[], 20, 3⟩
  else if startsNoCase s ['s', 'r', '0'] 3 then ⟨[], 21, 3⟩
  else if (charAt s 0).toLower = 'r' then parseNumber s
  else ⟨[.registerExpected], 0, 0⟩

def parseReg (s : List Char) : ParsedReg :=
  let p := parseName (s.dropWhile isSpace)
  { p with next := (s.takeWhile isSpace).length + p.next }

/-! ## Names -/

def registerNames : List (List Char × Fin 32) :=
  [(['y'], 16), (['p', 's', 'r'], 17), (['s', 'p', 's', 'r'], 18), (['t', 'r'], 19),
    (['t', 'p', 'c'], 20), (['s', 'r', '0'], 21)] ++
  (List.finRange 16).map fun n : Fin 16 => ('r' :: Nat.toDigits 10 n, n.castLE sixteen_le_registers)

/-- A text starts with a complete register name, in any letter case. -/
structure Names (s name : List Char) (number : Fin 32) : Prop where
  mem : (name, number) ∈ registerNames
  spelled : startsNoCase s name name.length = true
  ends : isPartOfName (charAt s name.length) = false

/-- What the parser goes by: two letters of `psr` and `spsr`, the other names up to their last
character, and `r` with a number up to 31 in one digit or two. -/
def Marked (s : List Char) : Prop :=
  (∃ mark ∈ [['y'], ['p', 's'], ['s', 'p'], ['t', 'r'], ['t', 'p', 'c'], ['s', 'r', '0']],
    startsNoCase s mark mark.length = true) ∨
  ((charAt s 0).toLower = 'r' ∧ (charAt s 1).isDigit = true ∧
    ((charAt s 2).isDigit = true → digit (charAt s 1) * 10 + digit (charAt s 2) ≤ 31))

/-! ## The parser on texts -/

variable {s t name after : List Char}

theorem charAt_append {i : Nat} (h : i ≤ t.length) : charAt (t ++ nul :: after) i = charAt t i := by
  unfold charAt
  rw [List.getD_eq_getElem?_getD, List.getD_eq_getElem?_getD]
  by_cases hlt : i < t.length
  · rw [List.getElem?_append_left hlt]
  · rw [List.getElem?_append_right (by omega), show i - t.length = 0 by omega,
      List.getElem?_eq_none (l := t) (by omega)]
    rfl

theorem lt_length_of_charAt {i : Nat} (h : charAt t i ≠ nul) : i < t.length := by
  by_contra hge
  apply h
  rw [charAt, List.getD_eq_getElem?_getD, List.getElem?_eq_none (by omega)]
  rfl

theorem length_le_of_startsNoCase {n : Nat} (h : startsNoCase t name n = true)
    (hn : n ≤ name.length) : n ≤ t.length := by
  have hlen := congrArg List.length (beq_iff_eq.mp h)
  rw [List.length_take, List.length_take, List.length_map] at hlen
  omega

/-- A name is looked for in front of the NUL only. -/
theorem startsNoCase_append {n : Nat} (hname : nul ∉ name) (hn : n ≤ name.length) :
    startsNoCase (t ++ nul :: after) name n = startsNoCase t name n := by
  by_cases hle : n ≤ t.length
  · unfold startsNoCase
    rw [List.map_append, List.take_append_of_le_length (by rwa [List.length_map])]
  · have hshort : startsNoCase t name n = false := by
      rw [Bool.eq_false_iff]
      intro h
      exact hle (length_le_of_startsNoCase h hn)
    rw [hshort, Bool.eq_false_iff]
    intro h
    have heq := beq_iff_eq.mp h
    have hmem : nul ∈ name.take n := by
      rw [← heq, List.map_append, List.take_append, List.mem_append]
      refine Or.inr ?_
      rw [List.length_map, show n - t.length = (n - t.length - 1) + 1 by omega]
      exact List.mem_cons_self
    exact hname (List.mem_of_mem_take hmem)

theorem startsNoCase_eq_false {n : Nat} {c : Char} (hc : (charAt s 0).toLower ≠ c) :
    startsNoCase s (c :: name) (n + 1) = false := by
  cases s with
  | nil => rfl
  | cons d s =>
    have hd : d.toLower ≠ c := hc
    simp [startsNoCase, hd]

theorem parseName_r (h : (charAt s 0).toLower = 'r') : parseName s = parseNumber s := by
  unfold parseName
  rw [startsNoCase_eq_false (by rw [h]; decide), startsNoCase_eq_false (by rw [h]; decide),
    startsNoCase_eq_false (by rw [h]; decide), startsNoCase_eq_false (by rw [h]; decide),
    startsNoCase_eq_false (by rw [h]; decide), startsNoCase_eq_false (by rw [h]; decide), if_pos h]
  rfl

theorem toLower_nul : nul.toLower = nul := by decide

theorem parseNumber_append (h : charAt t 0 ≠ nul) :
    parseNumber (t ++ nul :: after) = parseNumber t := by
  unfold parseNumber
  rw [charAt_append (lt_length_of_charAt h)]
  by_cases hd : (charAt t 1).isDigit = true
  · have hne : charAt t 1 ≠ nul := by
      intro heq
      rw [heq] at hd
      revert hd
      decide
    rw [charAt_append (lt_length_of_charAt hne)]
  · simp [hd]

theorem parseName_append : parseName (t ++ nul :: after) = parseName t := by
  unfold parseName
  rw [startsNoCase_append (by decide) (by decide), startsNoCase_append (by decide) (by decide),
    startsNoCase_append (by decide) (by decide), startsNoCase_append (by decide) (by decide),
    startsNoCase_append (by decide) (by decide), startsNoCase_append (by decide) (by decide),
    charAt_append (Nat.zero_le _)]
  by_cases hr : (charAt t 0).toLower = 'r'
  · rw [parseNumber_append]
    intro heq
    rw [heq, toLower_nul] at hr
    revert hr
    decide
  · simp only [hr, if_false]

theorem dropWhile_isSpace_append (s after : List Char) :
    (s ++ nul :: after).dropWhile isSpace = s.dropWhile isSpace ++ nul :: after := by
  induction s with
  | nil => rw [List.nil_append, List.dropWhile_cons_of_neg (by decide)]; rfl
  | cons c s ih => by_cases hc : isSpace c = true <;> simp [hc, ih]

theorem takeWhile_isSpace_append (s after : List Char) :
    (s ++ nul :: after).takeWhile isSpace = s.takeWhile isSpace := by
  induction s with
  | nil => rw [List.nil_append, List.takeWhile_cons_of_neg (by decide)]; rfl
  | cons c s ih => by_cases hc : isSpace c = true <;> simp [hc, ih]

theorem parseReg_append : parseReg (s ++ nul :: after) = parseReg s := by
  rw [parseReg, dropWhile_isSpace_append, takeWhile_isSpace_append, parseName_append]
  rfl

/-! ## Exactness -/

theorem digit_le (c : Char) (h : c.isDigit = true) : digit c ≤ 9 := by
  unfold digit
  simp only [Char.isDigit, Bool.and_eq_true, decide_eq_true_eq, ge_iff_le,
    UInt32.le_iff_toNat_le] at h
  have hval : c.toNat = c.val.toNat := rfl
  have hnine : '9'.val.toNat = 57 := rfl
  omega

@[simp] theorem numbered_next (errors : List RegError) (tmpreg next : Nat) :
    (numbered errors tmpreg next).next = next := by
  unfold numbered
  split <;> rfl

theorem numbered_errors (tmpreg next : Nat) :
    (numbered [] tmpreg next).errors = [] ↔ tmpreg ≤ 31 := by
  unfold numbered
  split <;> simp_all

theorem parseNumber_errors : (parseNumber s).errors = [] ↔ (charAt s 1).isDigit = true ∧
    ((charAt s 2).isDigit = true → digit (charAt s 1) * 10 + digit (charAt s 2) ≤ 31) := by
  unfold parseNumber
  by_cases hone : (charAt s 1).isDigit = true
  · have hle := digit_le _ hone
    by_cases htwo : (charAt s 2).isDigit = true
    · simp [hone, htwo, numbered_errors]
    · simp only [hone, htwo, Bool.and_false, Bool.false_eq_true, if_false, if_true,
        numbered_errors]
      simp
      omega
  · simp [hone, numbered]

theorem errors_eq_nil_iff : (parseName s).errors = [] ↔ Marked s := by
  have hps : startsNoCase s ['p', 's', 'r'] 2 = startsNoCase s ['p', 's'] 2 := rfl
  have hsp : startsNoCase s ['s', 'p', 's', 'r'] 2 = startsNoCase s ['s', 'p'] 2 := rfl
  unfold parseName Marked
  rw [hps, hsp]
  simp only [List.mem_cons, List.not_mem_nil, or_false, exists_eq_or_imp, exists_eq_left,
    List.length_cons, List.length_nil, Nat.zero_add, Nat.reduceAdd]
  split_ifs with hy hps hsp htr htpc hsr hr
  case pos => simp [hy]
  case pos => simp [hps]
  case pos => simp [hsp]
  case pos => simp [htr]
  case pos => simp [htpc]
  case pos => simp [hsr]
  case pos => simp [hy, hps, hsp, htr, htpc, hsr, hr, parseNumber_errors]
  case neg => simp [hy, hps, hsp, htr, htpc, hsr, hr]

theorem next_le_of_errors (h : (parseName s).errors ≠ []) : (parseName s).next ≤ s.length := by
  unfold parseName at h ⊢
  split_ifs at h ⊢ <;> try contradiction
  · unfold parseNumber
    split
    case isTrue htwo =>
      have hne : charAt s 2 ≠ nul := by
        intro heq
        rw [heq] at htwo
        simp [nul] at htwo
      have hlt := lt_length_of_charAt hne
      rw [numbered_next]
      omega
    case isFalse htwo =>
      split
      case isTrue hone =>
        exact absurd (parseNumber_errors.mpr ⟨hone, by simp_all⟩) h
      case isFalse =>
        rw [numbered_next]
        omega
  · exact Nat.zero_le _

theorem toLower_eq_digit {c d : Char} (h : c.toLower = d) (hd : d.isDigit = true) : c = d := by
  unfold Char.toLower at h
  split at h
  case isTrue hup =>
    -- a capital letter becomes a small one
    subst h
    have hsum : (c.val + ('a'.val - 'A'.val)).toNat = (c.val.toNat + 32) % 2 ^ 32 := rfl
    have hnine : '9'.val.toNat = 57 := rfl
    have hz : 'Z'.val.toNat = 90 := rfl
    have ha : 'A'.val.toNat = 65 := rfl
    simp only [Char.isDigit, Bool.and_eq_true, decide_eq_true_eq, ge_iff_le,
      UInt32.le_iff_toNat_le] at hd hup
    omega
  case isFalse => exact h

theorem parseName_one {c d : Char} (hc : c.toLower = 'r') (hd : d.isDigit = true)
    (ht : (charAt t 0).isDigit = false) : parseName (c :: d :: t) = numbered [] (digit d) 2 := by
  have hsnd : charAt (c :: d :: t) 1 = d := rfl
  have hthd : charAt (c :: d :: t) 2 = charAt t 0 := rfl
  rw [parseName_r (s := c :: d :: t) hc, parseNumber, hsnd, hthd, hd, ht]
  rfl

theorem parseName_two {c d e : Char} (hc : c.toLower = 'r') (hd : d.isDigit = true)
    (he : e.isDigit = true) :
    parseName (c :: d :: e :: t) = numbered [] (digit d * 10 + digit e) 3 := by
  have hsnd : charAt (c :: d :: e :: t) 1 = d := rfl
  have hthd : charAt (c :: d :: e :: t) 2 = e := rfl
  rw [parseName_r (s := c :: d :: e :: t) hc, parseNumber, hsnd, hthd, hd, he]
  rfl

theorem map_eq_of_spelled (h : startsNoCase s name name.length = true) :
    ∃ l, s.map Char.toLower = name ++ l := by
  have heq := beq_iff_eq.mp h
  rw [List.take_length] at heq
  exact ⟨_, by rw [← heq, List.take_append_drop]⟩

theorem toDigits_number : ∀ n : Fin 16,
    let ds := Nat.toDigits 10 n
    ds.all Char.isDigit = true ∧
      ((ds.length = 1 ∧ digit (charAt ds 0) = n) ∨
        (ds.length = 2 ∧ digit (charAt ds 0) * 10 + digit (charAt ds 1) = n)) := by
  decide

theorem parseName_special {number : Fin 32}
    (hmem : (name, number) ∈ registerNames.take 6) (h : startsNoCase s name name.length = true) :
    parseName s = ⟨[], number, name.length⟩ := by
  obtain ⟨l, hl⟩ := map_eq_of_spelled h
  simp only [registerNames, List.cons_append, List.take_succ_cons, List.take_zero, List.mem_cons,
    Prod.mk.injEq, List.not_mem_nil, or_false] at hmem
  rcases hmem with ⟨rfl, rfl⟩ | ⟨rfl, rfl⟩ | ⟨rfl, rfl⟩ | ⟨rfl, rfl⟩ | ⟨rfl, rfl⟩ | ⟨rfl, rfl⟩ <;>
    simp [parseName, startsNoCase, hl]

theorem isDigit_of_not_partOfName {c : Char} (h : isPartOfName c = false) : c.isDigit = false := by
  simp only [isPartOfName, Char.isAlphanum, Bool.or_eq_false_iff] at h
  exact h.1.1.1.1.2

theorem numbered_fin (n : Fin 16) (next : Nat) :
    numbered [] n next = ⟨[], n.castLE sixteen_le_registers, next⟩ := by
  rw [numbered, dif_pos (by omega)]
  rfl

theorem parseName_number (n : Fin 16)
    (h : startsNoCase s ('r' :: Nat.toDigits 10 n) (Nat.toDigits 10 n).length.succ = true)
    (hends : isPartOfName (charAt s (Nat.toDigits 10 n).length.succ) = false) :
    parseName s = ⟨[], n.castLE sixteen_le_registers, (Nat.toDigits 10 n).length.succ⟩ := by
  obtain ⟨l, hl⟩ := map_eq_of_spelled h
  obtain ⟨hdigits, hnumber⟩ := toDigits_number n
  obtain ⟨c, t, rfl, hc, hl⟩ := List.map_eq_cons_iff.mp hl
  generalize Nat.toDigits 10 n = ds at *
  match ds with
  | [] => simp at hnumber
  | [d] =>
    have hd : d.isDigit = true := by simpa using hdigits
    obtain ⟨d', t, rfl, hd', -⟩ := List.map_eq_cons_iff.mp hl
    have hvalue : digit d = n := by simpa [charAt] using hnumber
    rw [toLower_eq_digit hd' hd, parseName_one hc hd (isDigit_of_not_partOfName hends), hvalue]
    exact numbered_fin n 2
  | [d, e] =>
    have hd : d.isDigit = true ∧ e.isDigit = true := by simpa using hdigits
    obtain ⟨d', t, rfl, hd', hl⟩ := List.map_eq_cons_iff.mp hl
    obtain ⟨e', t, rfl, he', -⟩ := List.map_eq_cons_iff.mp hl
    have hvalue : digit d * 10 + digit e = n := by simpa [charAt] using hnumber
    rw [toLower_eq_digit hd' hd.1, toLower_eq_digit he' hd.2, parseName_two hc hd.1 hd.2, hvalue]
    exact numbered_fin n 3
  | _ :: _ :: _ :: _ => simp at hnumber

theorem parseName_of_names {number : Fin 32} (h : Names s name number) :
    parseName s = ⟨[], number, name.length⟩ := by
  obtain ⟨hmem, hspelled, hends⟩ := h
  rw [registerNames, List.mem_append, List.mem_map] at hmem
  rcases hmem with hmem | ⟨n, -, heq⟩
  · exact parseName_special hmem hspelled
  · cases heq
    exact parseName_number n hspelled hends

/-- The pointer stays in the string, and a text without an error starts with a complete name, whose
number and end are returned. -/
def RegExact (s after : List Char) : Prop :=
  let p := parseReg (s ++ nul :: after)
  p.next ≤ s.length ∧
    (p.errors = [] → ∃ name, Names (s.dropWhile isSpace) name p.reg ∧
      p.next = (s.takeWhile isSpace).length + name.length)

/-- A register is read exactly when the text is no register name by the parser's own marks, or is
a complete one. -/
theorem parseReg_exact_iff (s after : List Char) : RegExact s after ↔
    (Marked (s.dropWhile isSpace) → ∃ name number, Names (s.dropWhile isSpace) name number) := by
  have hlen : (s.takeWhile isSpace).length + (s.dropWhile isSpace).length = s.length := by
    rw [← List.length_append, List.takeWhile_append_dropWhile]
  unfold RegExact
  rw [parseReg_append]
  simp only [parseReg, errors_eq_nil_iff]
  constructor
  · rintro ⟨-, hexact⟩ hmarked
    obtain ⟨name, hnames, -⟩ := hexact hmarked
    exact ⟨name, _, hnames⟩
  · intro hcomplete
    by_cases hmarked : Marked (s.dropWhile isSpace)
    · obtain ⟨name, number, hnames⟩ := hcomplete hmarked
      have hle := length_le_of_startsNoCase hnames.spelled (Nat.le_refl _)
      simp only [parseName_of_names hnames]
      exact ⟨by omega, fun _ => ⟨name, hnames, rfl⟩⟩
    · have hle := next_le_of_errors fun herrors => hmarked (errors_eq_nil_iff.mp herrors)
      exact ⟨by omega, fun h => absurd h hmarked⟩

/-- `ps` leads behind the end of the string; `yellow` is read as `y`, `r5x` as `r5`, and `r16` is
a register. -/
theorem misread_names :
    parseReg ("ps".toList ++ [nul]) = ⟨[], 17, 3⟩ ∧ ¬RegExact "ps".toList [] ∧
      parseReg ("yellow".toList ++ [nul]) = ⟨[], 16, 1⟩ ∧
      parseReg ("r5x".toList ++ [nul]) = ⟨[], 5, 2⟩ ∧
      parseReg ("r16".toList ++ [nul]) = ⟨[], 16, 3⟩ := by
  refine ⟨by decide, ?_, by decide, by decide, by decide⟩
  rintro ⟨hle, -⟩
  revert hle
  decide

end Xtc.Tools.Text
