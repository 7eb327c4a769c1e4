import Xtc.App.ZstdioText

/-!
# ZstdioStandard — the integer conversions of `vsnprintf` against the C standard

The fill character is a variable of the whole call: it starts as a NUL, an ordinary character makes
it a space and a `0` flag makes it a zero, until the next ordinary character.  A NUL ends the number
that it should pad.  The minus sign is written in front of the padding and is not counted in the
width.  So a call prints what the standard says if and only if every number that has to be padded is
not negative and meets the right fill character.
-/

namespace Xtc

namespace Zstdio

open CString (nul)

/-! ## Formats and what they should print -/

inductive Kind
  | d | u | x | upperX
  deriving DecidableEq, Repr

namespace Kind

def char : Kind → Char
  | .d => 'd'
  | .u => 'u'
  | .x => 'x'
  | .upperX => 'X'

def negative (n : BitVec 32) : Kind → Bool
  | .d => n.slt 0
  | _ => false

def digits (n : BitVec 32) : Kind → List Char
  | .d => Nat.toDigits 10 n.toInt.natAbs
  | .u => Nat.toDigits 10 n.toNat
  | .x => Nat.toDigits 16 n.toNat
  | .upperX => (Nat.toDigits 16 n.toNat).map Char.toUpper

def sign (n : BitVec 32) (k : Kind) : List Char := if k.negative n then ['-'] else []

end Kind

structure Conversion where
  zero : Bool
  -- 0 if there is none
  width : Nat
  kind : Kind
  width_le : width ≤ 60

namespace Conversion

def widthText (s : Conversion) : List Char :=
  if s.width = 0 then [] else Nat.toDigits 10 s.width

def text (s : Conversion) : List Char :=
  '%' :: ((if s.zero then ['0'] else []) ++ (s.widthText ++ [s.kind.char]))

def standard (s : Conversion) (n : BitVec 32) : List Char :=
  let sign := s.kind.sign n
  let digits := s.kind.digits n
  let pad := s.width - (sign.length + digits.length)
  if s.zero then sign ++ (List.replicate pad '0' ++ digits)
  else List.replicate pad ' ' ++ (sign ++ digits)

end Conversion

inductive Piece
  | ordinary (c : Char) (h : c ≠ '%' ∧ c ≠ nul)
  | conversion (s : Conversion) (n : BitVec 32)

def Piece.text : Piece → List Char
  | .ordinary c _ => [c]
  | .conversion s _ => s.text

def Piece.args : Piece → List Arg
  | .ordinary _ _ => []
  | .conversion _ n => [.int n]

def format (ps : List Piece) : List Char := ps.flatMap Piece.text

def arguments (ps : List Piece) : List Arg := ps.flatMap Piece.args

def Piece.standard : Piece → List Char
  | .ordinary c _ => [c]
  | .conversion s n => s.standard n

def standard (ps : List Piece) : List Char := ps.flatMap Piece.standard

/-! ## Where it is printed -/

def Conversion.fill (s : Conversion) (fill : Char) : Char := if s.zero then '0' else fill

/-- A number that has to be padded is not negative, and finds its fill character. -/
def Conversion.Padded (s : Conversion) (n : BitVec 32) (fill : Char) : Prop :=
  (s.kind.digits n).length < s.width →
    s.kind.negative n = false ∧ (s.zero = true ∨ fill = ' ')

def Padded (fill : Char) : List Piece → Prop
  | [] => True
  | .ordinary _ _ :: ps => Padded ' ' ps
  | .conversion s n :: ps => s.Padded n fill ∧ Padded (s.fill fill) ps

/-! ## Digits -/

section Digits

variable {b m : Nat}

theorem toDigits_div (hb : 1 < b) (hm : b ≤ m) :
    Nat.toDigits b m = Nat.toDigits b (m / b) ++ [Nat.digitChar (m % b)] := by
  have hmod : m % b < b := Nat.mod_lt m (by omega)
  have hdiv : 0 < m / b := Nat.div_pos hm (by omega)
  rw [← Nat.toDigits_of_lt_base hmod, Nat.toDigits_append_toDigits hb hdiv hmod, Nat.div_add_mod]

theorem mem_toDigits (hb : 1 < b) {c : Char} (h : c ∈ Nat.toDigits b m) :
    ∃ d < b, c = Nat.digitChar d := by
  induction m using Nat.strong_induction_on with
  | _ m ih =>
    by_cases hm : m < b
    · rw [Nat.toDigits_of_lt_base hm, List.mem_singleton] at h
      exact ⟨m, hm, h⟩
    · rw [toDigits_div hb (by omega), List.mem_append, List.mem_singleton] at h
      rcases h with h | h
      · exact ih (m / b) (Nat.div_lt_self (by omega) hb) h
      · exact ⟨m % b, Nat.mod_lt m (by omega), h⟩

theorem head_toDigits (hb : 1 < b) (hm : 0 < m) :
    ∃ d cs, Nat.toDigits b m = Nat.digitChar d :: cs ∧ 0 < d ∧ d < b := by
  induction m using Nat.strong_induction_on with
  | _ m ih =>
    by_cases hlt : m < b
    · exact ⟨m, [], Nat.toDigits_of_lt_base hlt, hm, hlt⟩
    · have hdiv : 0 < m / b := Nat.div_pos (by omega) (by omega)
      obtain ⟨d, cs, hd, hpos, hdb⟩ := ih (m / b) (Nat.div_lt_self hm hb) hdiv
      have hdigits := toDigits_div hb (by omega : b ≤ m)
      rw [hd] at hdigits
      exact ⟨d, cs ++ [Nat.digitChar (m % b)], hdigits, hpos, hdb⟩

theorem head_decimals (hm : 0 < m) : ∃ c cs, Nat.toDigits 10 m = c :: cs ∧ c ≠ '0' := by
  obtain ⟨d, cs, hd, hpos, hlt⟩ := head_toDigits (by decide : 1 < 10) hm
  have hne : ∀ d < 10, 0 < d → Nat.digitChar d ≠ '0' := by decide
  exact ⟨_, cs, hd, hne d hlt hpos⟩

/-- `__utoa` finds the digits of the number, in its own characters. -/
theorem digits_eq (base : Base) (upper : Char) (g : Char → Char)
    (hg : ∀ d < base.radix, digitChar upper d = g (Nat.digitChar d)) (m : Nat) (cs : List Char) :
    digits base upper m cs = (Nat.toDigits base.radix m).map g ++ cs := by
  have hb := base.two_le
  induction m using Nat.strong_induction_on generalizing cs with
  | _ m ih =>
    rw [digits]
    by_cases hm : m < base.radix
    · rw [Nat.div_eq_of_lt hm, Nat.mul_zero, Nat.sub_zero, if_pos rfl, hg m hm,
        Nat.toDigits_of_lt_base hm]
      rfl
    · have hdiv : m / base.radix ≠ 0 := Nat.pos_iff_ne_zero.mp (Nat.div_pos (by omega) (by omega))
      have hmod : m - base.radix * (m / base.radix) = m % base.radix := by
        have := Nat.div_add_mod m base.radix
        omega
      rw [if_neg hdiv, ih _ (Nat.div_lt_self (by omega) hb), hmod,
        hg _ (Nat.mod_lt m (by omega)), toDigits_div (m := m) hb (by omega), List.map_append,
        List.append_assoc]
      rfl

end Digits

structure Spelled (cs : List Char) : Prop where
  ne_nil : cs ≠ []
  plain : ∀ c ∈ cs, c ≠ '-' ∧ c ≠ nul ∧ c ≠ ' '

namespace Kind

variable (n : BitVec 32) (k : Kind)

theorem digits_spelled : Spelled (k.digits n) := by
  have hlower : ∀ d < 16, Nat.digitChar d ≠ '-' ∧ Nat.digitChar d ≠ nul ∧
      Nat.digitChar d ≠ ' ' := by decide
  have hupper : ∀ d < 16, (Nat.digitChar d).toUpper ≠ '-' ∧ (Nat.digitChar d).toUpper ≠ nul ∧
      (Nat.digitChar d).toUpper ≠ ' ' := by decide
  have hplain : ∀ b m, 1 < b → b ≤ 16 → Spelled (Nat.toDigits b m) := by
    intro b m hb hle
    refine ⟨Nat.toDigits_ne_nil, fun c hc => ?_⟩
    obtain ⟨d, hd, rfl⟩ := mem_toDigits hb hc
    exact hlower d (by omega)
  cases k with
  | d => exact hplain 10 _ (by decide) (by decide)
  | u => exact hplain 10 _ (by decide) (by decide)
  | x => exact hplain 16 _ (by decide) (by decide)
  | upperX =>
    refine ⟨fun h => Nat.toDigits_ne_nil (List.map_eq_nil_iff.mp h), fun c hc => ?_⟩
    obtain ⟨c', hc', rfl⟩ := List.mem_map.mp hc
    obtain ⟨d, hd, rfl⟩ := mem_toDigits (by decide) hc'
    exact hupper d hd

theorem digits_head {k : Kind} (h : k.negative n = true) :
    ∃ c cs, k.digits n = c :: cs ∧ c ≠ '0' := by
  cases k with
  | d =>
    have hneg : n.toInt < 0 := by
      have hslt : n.slt 0 = true := h
      rw [BitVec.slt_iff_toInt_lt] at hslt
      exact hslt
    exact head_decimals (Int.natAbs_pos.mpr (by omega))
  | u => cases h
  | x => cases h
  | upperX => cases h

def printed (pad : Nat) (fill : Char) : List Char :=
  k.sign n ++
    (List.replicate (pad - (k.digits n).length) fill ++ k.digits n).takeWhile (· ≠ nul)

def directive : Directive :=
  match k with
  | .d => .signed n
  | .u => .unsigned n .ten 'A'
  | .x => .unsigned n .sixteen 'a'
  | .upperX => .unsigned n .sixteen 'A'

theorem neg_toNat (h : n.slt 0 = true) : (-n).toNat = n.toInt.natAbs := by
  rw [BitVec.slt_iff_toInt_lt] at h
  have hzero : (0 : BitVec 32).toInt = 0 := rfl
  rw [hzero, BitVec.toInt_eq_toNat_cond] at h
  rw [BitVec.toInt_eq_toNat_cond, BitVec.toNat_neg]
  split at h <;> omega

theorem digits_ten (m : Nat) : Zstdio.digits .ten 'A' m [] = Nat.toDigits 10 m := by
  rw [digits_eq .ten 'A' id (by decide), List.map_id, List.append_nil]
  rfl

theorem digits_sixteen (m : Nat) : Zstdio.digits .sixteen 'a' m [] = Nat.toDigits 16 m := by
  rw [digits_eq .sixteen 'a' id (by decide), List.map_id, List.append_nil]
  rfl

theorem digits_upper (m : Nat) :
    Zstdio.digits .sixteen 'A' m [] = (Nat.toDigits 16 m).map Char.toUpper := by
  rw [digits_eq .sixteen 'A' Char.toUpper (by decide), List.append_nil]
  rfl

theorem signedText_eq (pad : Nat) (fill : Char) :
    signedText n pad fill = printed n .d pad fill := by
  unfold signedText printed sign
  change _ = (if n.slt 0 = true then ['-'] else []) ++ _
  by_cases hneg : n.slt 0 = true
  · rw [if_pos hneg, if_pos hneg, numeral, digits_ten, neg_toNat n hneg]
    rfl
  · have habs : n.toNat = n.toInt.natAbs := by
      rw [BitVec.slt_iff_toInt_lt] at hneg
      have hzero : (0 : BitVec 32).toInt = 0 := rfl
      rw [hzero, BitVec.toInt_eq_toNat_cond] at hneg
      rw [BitVec.toInt_eq_toNat_cond]
      split at hneg <;> omega
    rw [if_neg hneg, if_neg hneg, numeral, digits_ten, habs]
    rfl

theorem render_directive (fill : Char) (spec : List Char) (ds : List Directive) :
    render fill spec (k.directive n :: ds) = k.printed n (atoi spec) fill ++ render fill [] ds := by
  cases k with
  | d =>
    show signedText n (atoi spec) fill ++ _ = _
    rw [signedText_eq]
  | u =>
    show numeral n .ten 'A' (atoi spec) fill ++ _ = _
    rw [numeral, digits_ten]
    rfl
  | x =>
    show numeral n .sixteen 'a' (atoi spec) fill ++ _ = _
    rw [numeral, digits_sixteen]
    rfl
  | upperX =>
    show numeral n .sixteen 'A' (atoi spec) fill ++ _ = _
    rw [numeral, digits_upper]
    rfl

end Kind

/-! ## What the code prints -/

def code (fill : Char) : List Piece → List Char
  | [] => []
  | .ordinary c _ :: ps => c :: code ' ' ps
  | .conversion s n :: ps =>
      s.kind.printed n s.width (s.fill fill) ++ code (s.fill fill) ps

def Piece.directives : Piece → List Directive
  | .ordinary c _ => [.char c]
  | .conversion s n =>
      (if s.zero then [.width '0'] else []) ++ (s.widthText.map .width ++ [s.kind.directive n])

theorem digitChar_value : ∀ d < 10, (Nat.digitChar d).toNat - '0'.toNat = d := by decide

theorem atoi_toDigits (w : Nat) : atoi (Nat.toDigits 10 w) = w := by
  induction w using Nat.strong_induction_on with
  | _ w ih =>
    by_cases h : w < 10
    · rw [Nat.toDigits_of_lt_base h]
      have hvalue := digitChar_value w h
      simpa [atoi] using hvalue
    · have hvalue := digitChar_value (w % 10) (Nat.mod_lt w (by decide))
      have hrest : atoi (Nat.toDigits 10 (w / 10)) = w / 10 := ih (w / 10) (by omega)
      rw [toDigits_div (by decide) (by omega), atoi, List.foldl_append, ← atoi, hrest,
        List.foldl_cons, List.foldl_nil, hvalue]
      omega

namespace Conversion

variable (s : Conversion)

theorem widthText_spec : atoi s.widthText = s.width ∧ s.widthText.head? ≠ some '0' ∧
    ∀ c ∈ s.widthText, c.isDigit = true := by
  unfold widthText
  by_cases h : s.width = 0
  · rw [if_pos h, h]
    exact ⟨rfl, by simp, by simp⟩
  · rw [if_neg h]
    refine ⟨atoi_toDigits s.width, ?_, fun _ hc =>
      Nat.isDigit_of_mem_toDigits (b := 10) (by decide) (by decide) hc⟩
    obtain ⟨c, cs, hc, hne⟩ := head_decimals (Nat.pos_of_ne_zero h)
    rw [hc, List.head?_cons]
    simpa using hne

end Conversion

theorem readChar_digit {c : Char} (h : c.isDigit = true) (ap : List Arg) :
    readChar true c ap = some (some (.width c), true, ap) := by
  unfold readChar
  rw [if_pos rfl]
  split
  case h_9 => rw [if_pos h]
  all_goals cases h

theorem directives_read {isformat isformat' : Bool} {c : Char} {ap ap' : List Arg}
    {d : Option Directive} (h : readChar isformat c ap = some (d, isformat', ap'))
    (format : List Char) :
    directives isformat (c :: format) ap =
      (directives isformat' format ap').map (d.toList ++ ·) := by
  rw [directives, h]

theorem directives_width {cs : List Char} (h : ∀ c ∈ cs, c.isDigit = true) (format : List Char)
    (ap : List Arg) :
    directives true (cs ++ format) ap =
      (directives true format ap).map (cs.map .width ++ ·) := by
  induction cs with
  | nil => simp
  | cons c cs ih =>
    rw [List.cons_append, directives_read (readChar_digit (h c List.mem_cons_self) ap),
      ih fun c' hc' => h c' (List.mem_cons_of_mem c hc'), Option.map_map]
    rfl

theorem readChar_kind (k : Kind) (n : BitVec 32) (ap : List Arg) :
    readChar true k.char (.int n :: ap) = some (some (k.directive n), false, ap) := by
  cases k <;> rfl

theorem directives_conversion (s : Conversion) (n : BitVec 32) (format : List Char)
    (ap : List Arg) :
    directives false (s.text ++ format) (.int n :: ap) =
      (directives false format ap).map ((Piece.conversion s n).directives ++ ·) := by
  have hzero : ∀ c ∈ (if s.zero then ['0'] else []), c.isDigit = true := by
    cases s.zero <;> simp
  have htext : s.text ++ format = '%' :: ((if s.zero then ['0'] else []) ++
      (s.widthText ++ (s.kind.char :: format))) := by
    simp [Conversion.text]
  have hwidths : (if s.zero then ['0'] else []).map Directive.width =
      if s.zero then [.width '0'] else [] := by
    cases s.zero <;> rfl
  have hpercent : readChar false '%' (.int n :: ap) = some (none, true, .int n :: ap) := rfl
  rw [htext, directives_read hpercent, directives_width hzero,
    directives_width s.widthText_spec.2.2, directives_read (readChar_kind s.kind n ap),
    hwidths, Option.map_map, Option.map_map, Option.map_map]
  congr 1
  funext ds
  simp [Piece.directives]

/-- The directives of a format are those of its parts. -/
theorem directives_format (ps : List Piece) :
    directives false (format ps) (arguments ps) = some (ps.flatMap Piece.directives) := by
  induction ps with
  | nil => rfl
  | cons p ps ih =>
    cases p with
    | ordinary c h =>
      have hread : readChar false c (arguments ps) =
          some (some (.char c), false, arguments ps) := by
        unfold readChar
        rw [if_neg Bool.false_ne_true, if_neg h.1]
      show directives false (c :: format ps) (arguments ps) = _
      rw [directives_read hread, ih]
      rfl
    | conversion s n =>
      show directives false (s.text ++ format ps) (.int n :: arguments ps) = _
      rw [directives_conversion, ih]
      rfl

theorem render_width (fill : Char) {spec cs : List Char} (ds : List Directive)
    (h : spec ≠ [] ∨ cs.head? ≠ some '0') :
    render fill spec (cs.map .width ++ ds) = render fill (spec ++ cs) ds := by
  induction cs generalizing spec with
  | nil => simp
  | cons c cs ih =>
    have hc : c ≠ '0' ∨ spec ≠ [] := by
      rcases h with h | h
      · exact .inr h
      · exact .inl fun hc => h (congrArg some hc)
    rw [List.map_cons, List.cons_append, render, if_pos hc, ih (.inl (by simp)),
      List.append_assoc]
    rfl

/-- What the directives of a format print. -/
theorem render_format (ps : List Piece) (fill : Char) :
    render fill [] (ps.flatMap Piece.directives) = code fill ps := by
  induction ps generalizing fill with
  | nil => rfl
  | cons p ps ih =>
    cases p with
    | ordinary c h =>
      show c :: render ' ' [] (ps.flatMap Piece.directives) = c :: code ' ' ps
      rw [ih]
    | conversion s n =>
      obtain ⟨hatoi, hhead, -⟩ := s.widthText_spec
      have hwidth : ∀ fill, render fill [] (s.widthText.map .width ++
          (s.kind.directive n :: ps.flatMap Piece.directives)) =
          s.kind.printed n s.width fill ++ code fill ps := by
        intro fill
        rw [render_width fill _ (.inr hhead), List.nil_append, Kind.render_directive, hatoi, ih]
      rw [List.flatMap_cons, Piece.directives, code, Conversion.fill, List.append_assoc,
        List.append_assoc]
      cases s.zero with
      | false => exact hwidth fill
      | true => exact hwidth '0'

/-! ## Numbers that are padded as they should be -/

section Padding

variable {s : Conversion} {n : BitVec 32} {fill : Char}

theorem takeWhile_digits (k : Kind) (n : BitVec 32) :
    (k.digits n).takeWhile (· ≠ nul) = k.digits n := by
  have hall : ∀ c ∈ k.digits n, decide (c ≠ nul) = true := fun c hc =>
    decide_eq_true ((k.digits_spelled n).plain c hc).2.1
  rw [← List.append_nil (k.digits n), List.takeWhile_append_of_pos hall]
  rfl

theorem printed_of_ne (k : Kind) (n : BitVec 32) (pad : Nat) (h : fill ≠ nul) :
    k.printed n pad fill =
      k.sign n ++ (List.replicate (pad - (k.digits n).length) fill ++ k.digits n) := by
  rw [Kind.printed, List.takeWhile_append_of_pos, takeWhile_digits]
  intro c hc
  simp [List.eq_of_mem_replicate hc, h]

/-- The padding is cut off with the number. -/
theorem printed_nul (k : Kind) {n : BitVec 32} {pad : Nat} (h : (k.digits n).length < pad) :
    k.printed n pad nul = k.sign n := by
  obtain ⟨j, hj⟩ : ∃ j, pad - (k.digits n).length = j + 1 :=
    ⟨pad - (k.digits n).length - 1, by omega⟩
  rw [Kind.printed, hj, List.replicate_succ, List.cons_append,
    List.takeWhile_cons_of_neg (by simp), List.append_nil]

theorem printed_of_le (k : Kind) {n : BitVec 32} {pad : Nat} (h : pad ≤ (k.digits n).length) :
    k.printed n pad fill = k.sign n ++ k.digits n := by
  rw [Kind.printed, Nat.sub_eq_zero_of_le h, List.replicate_zero, List.nil_append,
    takeWhile_digits]

theorem standard_of_le (h : s.width ≤ (s.kind.digits n).length) :
    s.standard n = s.kind.sign n ++ s.kind.digits n := by
  unfold Conversion.standard
  simp only [show s.width - ((s.kind.sign n).length + (s.kind.digits n).length) = 0 by omega,
    List.replicate_zero, List.nil_append, ite_self]

theorem sign_of_nonneg (h : s.kind.negative n = false) : s.kind.sign n = [] := by
  rw [Kind.sign, h]
  rfl

theorem standard_of_nonneg (h : s.kind.negative n = false) :
    s.standard n =
      List.replicate (s.width - (s.kind.digits n).length) (s.fill ' ') ++ s.kind.digits n := by
  unfold Conversion.standard Conversion.fill
  rw [sign_of_nonneg h]
  cases s.zero <;> simp

theorem printed_eq_standard (h : s.Padded n fill) :
    s.kind.printed n s.width (s.fill fill) = s.standard n := by
  by_cases hlt : (s.kind.digits n).length < s.width
  · obtain ⟨hneg, hfill⟩ := h hlt
    have heq : s.fill fill = s.fill ' ' := by
      unfold Conversion.fill
      rcases hfill with hzero | hspace
      · rw [if_pos hzero, if_pos hzero]
      · rw [hspace]
    have hne : s.fill ' ' ≠ nul := by
      unfold Conversion.fill
      cases s.zero <;> decide
    rw [heq, printed_of_ne s.kind n s.width hne, standard_of_nonneg hneg, sign_of_nonneg hneg]
    rfl
  · rw [printed_of_le s.kind (by omega), standard_of_le (by omega)]

theorem code_eq_standard {ps : List Piece} (h : Padded fill ps) : code fill ps = standard ps := by
  induction ps generalizing fill with
  | nil => rfl
  | cons p ps ih =>
    cases p with
    | ordinary c hc => exact congrArg (c :: ·) (ih h)
    | conversion s n =>
      show s.kind.printed n s.width (s.fill fill) ++ code (s.fill fill) ps = s.standard n ++ _
      rw [printed_eq_standard h.1, ih h.2]
      rfl

end Padding

/-! ## Numbers that are not -/

section Missing

def IsFill (fill : Char) : Prop := fill = nul ∨ fill = ' ' ∨ fill = '0'

theorem IsFill.fill {fill : Char} (h : IsFill fill) (s : Conversion) : IsFill (s.fill fill) := by
  unfold Conversion.fill
  split
  · exact .inr (.inr rfl)
  · exact h

theorem printed_length (k : Kind) (n : BitVec 32) (pad : Nat) (fill : Char) :
    (k.printed n pad fill).length ≤
      (k.sign n).length + (pad - (k.digits n).length + (k.digits n).length) := by
  rw [Kind.printed, List.length_append]
  have := (List.takeWhile_sublist (p := fun c => decide (c ≠ nul))
    (l := List.replicate (pad - (k.digits n).length) fill ++ k.digits n)).length_le
  rw [List.length_append, List.length_replicate] at this
  omega

theorem not_minus_standard {s : Conversion} {n : BitVec 32} (h : s.kind.negative n = false) :
    '-' ∉ s.standard n := by
  rw [standard_of_nonneg h, List.mem_append]
  rintro (hmem | hmem)
  · have heq := List.eq_of_mem_replicate hmem
    unfold Conversion.fill at heq
    revert heq
    cases s.zero <;> simp
  · exact ((s.kind.digits_spelled n).plain _ hmem).1 rfl

/-- Once the text is behind what it should be, it stays behind: only a minus could make up for it,
and that comes too early. -/
theorem behind (ps : List Piece) (fill : Char) {front : List Char} (hne : front ≠ [])
    (hminus : '-' ∉ front) : ¬ front ++ standard ps <+: code fill ps := by
  induction ps generalizing fill front with
  | nil =>
    intro h
    exact hne (List.append_eq_nil_iff.mp (List.prefix_nil.mp h)).1
  | cons p ps ih =>
    obtain ⟨c₀, front, rfl⟩ := List.exists_cons_of_ne_nil hne
    cases p with
    | ordinary c hc =>
      intro h
      obtain ⟨rfl, h⟩ := List.cons_prefix_cons.mp h
      have hnext : front ++ [c₀] ++ standard ps <+: code ' ' ps := by
        rw [List.append_assoc]
        exact h
      exact ih ' ' (by simp) (by simpa [or_comm] using hminus) hnext
    | conversion s n =>
      intro h
      change c₀ :: front ++ (s.standard n ++ standard ps) <+:
        s.kind.printed n s.width (s.fill fill) ++ code (s.fill fill) ps at h
      cases hneg : s.kind.negative n with
      | true =>
        rw [Kind.printed, Kind.sign, hneg] at h
        obtain ⟨rfl, -⟩ := List.cons_prefix_cons.mp h
        exact hminus List.mem_cons_self
      | false =>
        -- what is printed is not longer than it should be
        have hlen := printed_length s.kind n s.width (s.fill fill)
        rw [sign_of_nonneg hneg] at hlen
        have hstandard : (s.standard n).length =
            s.width - (s.kind.digits n).length + (s.kind.digits n).length := by
          rw [standard_of_nonneg hneg, List.length_append, List.length_replicate]
        rw [← List.append_assoc] at h
        obtain ⟨rest, hrest⟩ := List.prefix_of_prefix_length_le (List.prefix_append _ _)
          ((List.prefix_append _ _).trans h) (by simp; simp at hlen; omega)
        have hlength := congrArg List.length hrest
        rw [List.length_append, List.length_append, List.length_cons] at hlength
        have hne' : rest ≠ [] := by
          rintro rfl
          simp at hlength hlen
          omega
        have hminus' : '-' ∉ rest := by
          intro hmem
          have : '-' ∈ c₀ :: front ++ s.standard n := hrest ▸ List.mem_append_right _ hmem
          rcases List.mem_append.mp this with hmem | hmem
          · exact hminus hmem
          · exact not_minus_standard hneg hmem
        rw [← hrest, List.append_assoc, List.prefix_append_right_inj] at h
        exact ih _ hne' hminus' h

variable {s : Conversion} {n : BitVec 32} {fill : Char} {ps : List Piece}

/-- A negative number with padding: the sign or the first digit is not where it should be. -/
theorem negative_not_prefix (hfill : IsFill fill) (hneg : s.kind.negative n = true)
    (hlt : (s.kind.digits n).length < s.width) :
    ¬ s.standard n ++ standard ps <+:
      s.kind.printed n s.width (s.fill fill) ++ code (s.fill fill) ps := by
  obtain ⟨c, cs, hdigits, hc⟩ := Kind.digits_head n hneg
  have hspelled := s.kind.digits_spelled n
  have hspace : c ≠ ' ' := (hspelled.plain c (by rw [hdigits]; exact List.mem_cons_self)).2.2
  have hsign : s.kind.sign n = ['-'] := by rw [Kind.sign, hneg]; rfl
  obtain ⟨j, hj⟩ : ∃ j, s.width = (s.kind.digits n).length + (j + 1) :=
    ⟨s.width - (s.kind.digits n).length - 1, by omega⟩
  have hpad : s.width - (['-'].length + (s.kind.digits n).length) = j := by
    rw [hj, List.length_singleton]
    omega
  have hpad' : s.width - (s.kind.digits n).length = j + 1 := by omega
  unfold Conversion.standard Conversion.fill
  simp only [hsign, hpad]
  intro h
  cases hzero : s.zero with
  | true =>
    -- one zero too many in front of the first digit
    rw [hzero, if_pos rfl, if_pos rfl, printed_of_ne s.kind n s.width (by decide), hsign, hpad',
      List.replicate_succ', hdigits] at h
    simp only [List.append_assoc, List.cons_append, List.nil_append] at h
    have hdigit := (List.prefix_append_right_inj _).mp (List.cons_prefix_cons.mp h).2
    exact hc (List.cons_prefix_cons.mp hdigit).1
  | false =>
    rw [hzero, if_neg Bool.false_ne_true, if_neg Bool.false_ne_true] at h
    cases j with
    | succ j =>
      -- the sign in front of the spaces
      rw [Kind.printed, hsign] at h
      exact absurd (List.cons_prefix_cons.mp h).1 (by decide)
    | zero =>
      rcases hfill with rfl | hchar
      · rw [printed_nul s.kind hlt, hsign] at h
        exact behind ps nul hspelled.ne_nil (fun hmem => (hspelled.plain _ hmem).1 rfl)
          (List.cons_prefix_cons.mp h).2
      · have hne : fill ≠ nul := by rcases hchar with rfl | rfl <;> decide
        rw [printed_of_ne s.kind n s.width hne, hsign, hpad', hdigits] at h
        have hhead := (List.cons_prefix_cons.mp (List.cons_prefix_cons.mp h).2).1
        rcases hchar with rfl | rfl
        · exact hspace hhead
        · exact hc hhead

theorem nonneg_not_prefix (hfill : fill = nul ∨ fill = '0') (hzero : s.zero = false)
    (hneg : s.kind.negative n = false) (hlt : (s.kind.digits n).length < s.width) :
    ¬ s.standard n ++ standard ps <+: s.kind.printed n s.width fill ++ code fill ps := by
  obtain ⟨j, hj⟩ : ∃ j, s.width - (s.kind.digits n).length = j + 1 :=
    ⟨s.width - (s.kind.digits n).length - 1, by omega⟩
  have hspaces : s.standard n = ' ' :: (List.replicate j ' ' ++ s.kind.digits n) := by
    rw [standard_of_nonneg hneg, hj, Conversion.fill, hzero, List.replicate_succ]
    rfl
  intro h
  rcases hfill with rfl | rfl
  · rw [printed_nul s.kind hlt, sign_of_nonneg hneg] at h
    exact behind ps nul (by rw [hspaces]; simp) (not_minus_standard hneg) h
  · rw [printed_of_ne s.kind n s.width (by decide), sign_of_nonneg hneg, hj, hspaces] at h
    exact absurd (List.cons_prefix_cons.mp h).1 (by decide)

/-- A text that starts as it should is padded as it should be. -/
theorem padded_of_prefix (hfill : IsFill fill) (h : standard ps <+: code fill ps) :
    Padded fill ps := by
  induction ps generalizing fill with
  | nil => trivial
  | cons p ps ih =>
    cases p with
    | ordinary c hc => exact ih (.inr (.inl rfl)) (List.cons_prefix_cons.mp h).2
    | conversion s n =>
      change s.standard n ++ standard ps <+:
        s.kind.printed n s.width (s.fill fill) ++ code (s.fill fill) ps at h
      have hpadded : s.Padded n fill := by
        intro hlt
        have hneg : s.kind.negative n = false := by
          by_contra hneg
          exact negative_not_prefix hfill (Bool.not_eq_false _ ▸ hneg) hlt h
        refine ⟨hneg, ?_⟩
        by_contra hor
        obtain ⟨hzero, hspace⟩ := not_or.mp hor
        have hzero : s.zero = false := Bool.not_eq_true _ ▸ hzero
        have hfill' : fill = nul ∨ fill = '0' := by
          rcases hfill with h | h | h
          · exact .inl h
          · exact absurd h hspace
          · exact .inr h
        rw [Conversion.fill, hzero] at h
        exact nonneg_not_prefix hfill' hzero hneg hlt h
      refine ⟨hpadded, ih (hfill.fill s) ?_⟩
      rw [printed_eq_standard hpadded, List.prefix_append_right_inj] at h
      exact h

end Missing

/-! ## Calls -/

theorem not_isString_directives (ps : List Piece) :
    ∀ d ∈ ps.flatMap Piece.directives, ¬ d.IsString := by
  intro d hd
  obtain ⟨p, -, hp⟩ := List.mem_flatMap.mp hd
  cases p with
  | ordinary c h =>
    rw [List.mem_singleton.mp hp]
    exact id
  | conversion s n =>
    rcases List.mem_append.mp hp with hd | hd
    · cases hzero : s.zero with
      | false =>
        rw [hzero] at hd
        cases hd
      | true =>
        rw [hzero] at hd
        rw [List.mem_singleton.mp hd]
        exact id
    · rcases List.mem_append.mp hd with hd | hd
      · obtain ⟨c, -, rfl⟩ := List.mem_map.mp hd
        exact id
      · rw [List.mem_singleton.mp hd]
        cases s.kind <;> exact id

theorem vsnprintf_code (ps : List Piece) (buf : Nat → Char) (size : BitVec 32) :
    ∃ v, vsnprintf buf size (format ps) (arguments ps) = some v ∧
      v.text = (code nul ps).take (size - 1).toNat ∧ v.buf v.str = nul := by
  have h := vsnprintf_text buf size (directives_format ps) (not_isString_directives ps)
  rw [render_format] at h
  exact h

/-- In a buffer that is large enough a call leaves the text of the standard if and only if every
number that has to be padded is not negative and finds its fill character. -/
theorem vsnprintf_standard_iff (ps : List Piece) (buf : Nat → Char) (size : BitVec 32)
    (hsize : (standard ps).length < size.toNat) :
    (∃ v, vsnprintf buf size (format ps) (arguments ps) = some v ∧ v.text = standard ps ∧
      v.buf v.str = nul) ↔ Padded nul ps := by
  obtain ⟨v, hv, htext, hnul⟩ := vsnprintf_code ps buf size
  have hroom : (standard ps).length ≤ (size - 1).toNat := by
    rw [BitVec.toNat_sub]
    have := size.isLt
    simp
    omega
  constructor
  · rintro ⟨w, hw, hstandard, -⟩
    obtain rfl : v = w := Option.some.inj (hv.symm.trans hw)
    apply padded_of_prefix (.inl rfl)
    rw [← hstandard, htext]
    exact List.take_prefix _ _
  · intro hpadded
    refine ⟨v, hv, ?_, hnul⟩
    rw [htext, code_eq_standard hpadded, List.take_of_length_le hroom]

/-- The format `x%5d` with 42. -/
def spaced : List Piece :=
  [.ordinary 'x' (by decide), .conversion ⟨false, 5, .d, by decide⟩ 42]

theorem vsnprintf_spaced :
    format spaced = ['x', '%', '5', 'd'] ∧
      ∃ v, vsnprintf (fun _ => 'z') 16 ['x', '%', '5', 'd'] [.int 42] = some v ∧
        v.text = ['x', ' ', ' ', ' ', '4', '2'] ∧ v.buf v.str = nul := by
  have hpadded : Padded nul spaced := ⟨fun _ => ⟨by decide, .inr rfl⟩, trivial⟩
  exact ⟨by decide, (vsnprintf_standard_iff spaced (fun _ => 'z') 16 (by decide)).mpr hpadded⟩

/-- The format `%5d` with 42, and `%04d` with -7. -/
def unspaced : List Piece := [.conversion ⟨false, 5, .d, by decide⟩ 42]

def minusSeven : List Piece := [.conversion ⟨true, 4, .d, by decide⟩ (-7)]

/-- The first prints nothing at all, and the second one zero too many. -/
theorem vsnprintf_unspaced :
    (standard unspaced = [' ', ' ', ' ', '4', '2'] ∧
      ∃ v, vsnprintf (fun _ => 'z') 16 (format unspaced) (arguments unspaced) = some v ∧
        v.text = []) ∧
    standard minusSeven = ['-', '0', '0', '7'] ∧
      ∃ v, vsnprintf (fun _ => 'z') 16 (format minusSeven) (arguments minusSeven) = some v ∧
        v.text = ['-', '0', '0', '0', '7'] := by
  obtain ⟨v, hv, htext, -⟩ := vsnprintf_code unspaced (fun _ => 'z') 16
  obtain ⟨w, hw, htext', -⟩ := vsnprintf_code minusSeven (fun _ => 'z') 16
  exact ⟨⟨by decide, v, hv, htext.trans (by decide)⟩, by decide, w, hw, htext'.trans (by decide)⟩

end Zstdio

end Xtc
