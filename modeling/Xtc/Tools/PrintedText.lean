import Xtc.Tools.LineText

/-!
# PrintedText — what the text of the disassembler determines

A line is printed as one string.  It can be taken apart again: the mnemonic goes up to the dot or
the tab, the suffix up to the tab, an operand up to the comma, and the first character of an operand
tells its kind.  So two instructions with the same text are printed from the same pieces, and if
the text states both of them they do the same.
-/

namespace Xtc.Tools

/-! ## Numbers -/

theorem cut_inj {p : Char → Bool} {a b x y : List Char} (ha : ∀ c ∈ a, p c = true)
    (hb : ∀ c ∈ b, p c = true) (hx : ∀ c ∈ x.head?, p c = false)
    (hy : ∀ c ∈ y.head?, p c = false) (h : a ++ x = b ++ y) : a = b ∧ x = y := by
  have hcut : ∀ {a x : List Char}, (∀ c ∈ a, p c = true) → (∀ c ∈ x.head?, p c = false) →
      (a ++ x).takeWhile p = a := by
    intro a x ha hx
    rw [List.takeWhile_append_of_pos ha]
    cases x with
    | nil => simp
    | cons c cs => simp [hx c rfl]
  have hab : a = b := by rw [← hcut ha hx, h, hcut hb hy]
  rw [hab] at h
  exact ⟨hab, List.append_cancel_left h⟩

def digits (n : Nat) : List Char := (toString n).toList

theorem isDigit_of_mem_digits {n : Nat} {c : Char} (h : c ∈ digits n) : c.isDigit = true := by
  rw [digits, Nat.toString_eq_repr, Nat.toList_repr] at h
  exact Nat.isDigit_of_mem_toDigits (by decide : 0 < 10) (by decide) h

theorem digits_inj {m n : Nat} (h : digits m = digits n) : m = n := by
  have hvalue : ∀ n, Nat.ofDigitChars 10 (digits n) 0 = n := by
    intro n
    rw [digits, Nat.toString_eq_repr, Nat.toList_repr, Nat.ofDigitChars_ten_toDigits]
  rw [← hvalue m, h, hvalue n]

theorem digits_ne_nil (n : Nat) : digits n ≠ [] := by
  rw [digits, Nat.toString_eq_repr, Nat.toList_repr]
  exact Nat.toDigits_ne_nil

def numeral (v : Int) : List Char := (toString v).toList

theorem numeral_eq (v : Int) :
    numeral v = if 0 ≤ v then digits v.toNat else '-' :: digits (-v).toNat := by
  have hrepr : toString v = v.repr := rfl
  rw [numeral, hrepr, Int.repr_eq_if]
  split <;> simp [digits, Nat.toString_eq_repr]

theorem numeral_chars {v : Int} {c : Char} (h : c ∈ numeral v) :
    (c.isDigit || c == '-') = true := by
  rw [numeral_eq] at h
  split at h
  · rw [isDigit_of_mem_digits h, Bool.true_or]
  · rcases List.mem_cons.mp h with rfl | hc
    · rfl
    · rw [isDigit_of_mem_digits hc, Bool.true_or]

theorem numeral_inj {v w : Int} (h : numeral v = numeral w) : v = w := by
  have hminus : ∀ m n : Nat, digits m ≠ '-' :: digits n := fun m n hmn =>
    absurd (isDigit_of_mem_digits (hmn ▸ List.mem_cons_self : '-' ∈ digits m)) (by decide)
  rw [numeral_eq, numeral_eq] at h
  split_ifs at h with hv hw hw
  · have := digits_inj h
    omega
  · exact absurd h (hminus _ _)
  · exact absurd h.symm (hminus _ _)
  · have := digits_inj (List.cons.inj h).2
    omega

/-! ## Operands -/

namespace PrintedOperand

theorem toList_reg (r : Nat) : (reg r).text.toList = 'r' :: digits r := by
  simp [text, digits]

theorem toList_mem (base : Nat) (disp : Int) : (mem base disp).text.toList =
    '(' :: 'r' :: (digits base ++
      if disp = 0 then [')'] else ' ' :: '+' :: ' ' :: (numeral disp ++ [')'])) := by
  rw [text]
  split <;> simp [digits, numeral]

theorem toList_number (v : Int) : (number v).text.toList = numeral v := rfl

def kind : PrintedOperand → Nat
  | reg _ => 0
  | mem _ _ => 1
  | number _ => 2
  | spr _ => 3

/-- The first character of an operand says of which kind it is. -/
def kindOf (c : Char) : Nat :=
  if c = 'r' then 0 else if c = '(' then 1 else if c.isDigit || c == '-' then 2 else 3

theorem kindOf_head (o : PrintedOperand) : o.text.toList.head?.map kindOf = some o.kind := by
  cases o with
  | reg r => rw [toList_reg]; rfl
  | mem base disp => rw [toList_mem]; rfl
  | spr s => cases s <;> decide
  | number v =>
    cases hchars : numeral v with
    | nil =>
      rw [numeral_eq] at hchars
      split at hchars
      · exact absurd hchars (digits_ne_nil _)
      · cases hchars
    | cons c cs =>
      have hc : (c.isDigit || c == '-') = true := numeral_chars (hchars ▸ List.mem_cons_self)
      have hr : c ≠ 'r' := by rintro rfl; exact absurd hc (by decide)
      have hp : c ≠ '(' := by rintro rfl; exact absurd hc (by decide)
      rw [toList_number, hchars, List.head?_cons, Option.map_some, kindOf, if_neg hr, if_neg hp,
        if_pos hc, kind]

theorem comma_not_mem (o : PrintedOperand) : ',' ∉ o.text.toList := by
  have hdigits : ∀ n, ',' ∉ digits n := fun n h => absurd (isDigit_of_mem_digits h) (by decide)
  have hnumber : ∀ v : Int, ',' ∉ numeral v := fun v h =>
    absurd (numeral_chars h) (by decide)
  cases o with
  | reg r => rw [toList_reg]; simp [hdigits r]
  | spr s => cases s <;> decide
  | number v => exact hnumber v
  | mem base disp =>
    rw [toList_mem]
    split <;> simp [hdigits base, hnumber disp]

theorem mem_inj {base base' : Nat} {disp disp' : Int}
    (h : (mem base disp).text = (mem base' disp').text) : mem base disp = mem base' disp' := by
  have hlist := congrArg String.toList h
  rw [toList_mem, toList_mem] at hlist
  obtain ⟨hbase, hdisp⟩ := cut_inj (p := Char.isDigit) (fun _ => isDigit_of_mem_digits)
    (fun _ => isDigit_of_mem_digits) (by split <;> simp) (by split <;> simp)
    (List.cons.inj (List.cons.inj hlist).2).2
  rw [digits_inj hbase]
  split_ifs at hdisp with hd hd' hd'
  · rw [hd, hd']
  · cases hdisp
  · cases hdisp
  · simp only [List.cons.injEq, true_and] at hdisp
    rw [numeral_inj (List.append_cancel_right hdisp)]

theorem text_inj {o o' : PrintedOperand} (h : o.text = o'.text) : o = o' := by
  have hkind : o.kind = o'.kind := by
    have hhead := kindOf_head o
    rw [h, kindOf_head] at hhead
    exact (Option.some.inj hhead).symm
  cases o <;> cases o' <;> try (simp [kind] at hkind; done)
  case reg.reg r r' =>
    have hlist := congrArg String.toList h
    rw [toList_reg, toList_reg] at hlist
    rw [digits_inj (List.cons.inj hlist).2]
  case spr.spr s s' => revert h; cases s <;> cases s' <;> decide
  case number.number v v' => rw [numeral_inj (congrArg String.toList h)]
  case mem.mem => exact mem_inj h

end PrintedOperand

/-! ## Lists of operands -/

def commaSeparated (os : List PrintedOperand) : List Char :=
  (", ".intercalate (os.map PrintedOperand.text)).toList

def following (os : List PrintedOperand) : List Char :=
  if os = [] then [] else ',' :: ' ' :: commaSeparated os

theorem commaSeparated_cons (o : PrintedOperand) (os : List PrintedOperand) :
    commaSeparated (o :: os) = o.text.toList ++ following os := by
  cases os with
  | nil => simp [commaSeparated, following]
  | cons o' os => simp [commaSeparated, following, String.intercalate_cons_cons]

theorem following_head (os : List PrintedOperand) : ∀ c ∈ (following os).head?, c = ',' := by
  cases os <;> simp [following]

theorem operand_inj {o o' : PrintedOperand} {x y : List Char} (hx : ∀ c ∈ x.head?, c = ',')
    (hy : ∀ c ∈ y.head?, c = ',') (h : o.text.toList ++ x = o'.text.toList ++ y) :
    o = o' ∧ x = y := by
  have hcomma : ∀ o : PrintedOperand, ∀ c ∈ o.text.toList, (c != ',') = true := by
    intro o c hc
    have : c ≠ ',' := fun h => o.comma_not_mem (h ▸ hc)
    simpa using this
  obtain ⟨ho, hxy⟩ := cut_inj (p := (· != ',')) (hcomma o) (hcomma o')
    (fun c hc => by simp [hx c hc]) (fun c hc => by simp [hy c hc]) h
  exact ⟨PrintedOperand.text_inj (String.toList_inj.mp ho), hxy⟩

theorem following_inj {os os' : List PrintedOperand} (h : following os = following os') :
    os = os' := by
  induction os generalizing os' with
  | nil =>
    cases os' with
    | nil => rfl
    | cons o' os' => simp [following] at h
  | cons o os ih =>
    cases os' with
    | nil => simp [following] at h
    | cons o' os' =>
      simp only [following, reduceCtorEq, if_false, List.cons.injEq, true_and] at h
      rw [commaSeparated_cons, commaSeparated_cons] at h
      obtain ⟨rfl, hrest⟩ := operand_inj (following_head os) (following_head os') h
      rw [ih hrest]

/-! ## Lines -/

theorem hashFind_name (m : Mnemonic) : Text.hashFind m.name.toList = some m := by
  cases m <;> decide

theorem Mnemonic.name_chars (m : Mnemonic) :
    ∀ c ∈ m.name.toList, (c != '.') = true ∧ (c != '\t') = true := by
  have hall : (m.name.toList.all fun c => c != '.' && c != '\t') = true := by
    cases m <;> rfl
  intro c hc
  exact Bool.and_eq_true_iff.mp (List.all_eq_true.mp hall c hc)

theorem Suffix.toList_text (s : Suffix) : s.text.toList = '.' :: s.letters := by
  obtain ⟨condition, flags⟩ := s
  cases condition <;> cases flags <;> simp [Suffix.text, letters, ExtFlags.letters]

theorem Suffix.text_chars (s : Suffix) : ∀ c ∈ '.' :: s.letters, (c != '\t') = true := by
  refine List.all_eq_true.mp ?_
  obtain ⟨condition, flags⟩ := s
  cases flags <;> cases condition with
  | none => rfl
  | some c => cases c <;> rfl

theorem Suffix.letters_inj {s s' : Suffix} (h : s.letters = s'.letters) : s = s' := by
  have hspell : ∀ s : Suffix,
      s.letters = spell (s.condition.elim [] fun c => [some c]) s.flags := by
    rintro ⟨condition, flags⟩
    cases condition <;> simp [letters, spell, partName]
  rw [hspell, hspell] at h
  obtain ⟨hcondition, hflags⟩ := spell_injective h
  obtain ⟨condition, flags⟩ := s
  obtain ⟨condition', flags'⟩ := s'
  cases condition <;> cases condition' <;> simp_all

namespace Printed

def suffixChars (p : Printed) : List Char := p.suffix.elim [] fun s => '.' :: s.letters

def operandChars (p : Printed) : List Char :=
  if p.operands = [] then [] else '\t' :: commaSeparated p.operands

theorem toList_text (p : Printed) :
    p.text.toList = p.mnemonic.name.toList ++ p.suffixChars ++ p.operandChars := by
  obtain ⟨m, suffix, operands⟩ := p
  cases suffix <;> cases operands <;>
    simp [text, suffixChars, operandChars, commaSeparated, Suffix.toList_text]

theorem suffixChars_inj {p p' : Printed} (h : p.suffixChars = p'.suffixChars) :
    p.suffix = p'.suffix := by
  unfold suffixChars at h
  cases hs : p.suffix <;> cases hs' : p'.suffix <;> rw [hs, hs'] at h
  case none.some => cases h
  case some.none => cases h
  case some.some => rw [Suffix.letters_inj (List.cons.inj h).2]

theorem operandChars_inj {p p' : Printed} (h : p.operandChars = p'.operandChars) :
    p.operands = p'.operands := by
  apply following_inj
  unfold operandChars at h
  unfold following
  split_ifs at h ⊢
  · rfl
  · rw [(List.cons.inj h).2]

theorem label_chars (p : Printed) :
    ∀ c ∈ p.mnemonic.name.toList ++ p.suffixChars, (c != '\t') = true := by
  intro c hc
  rcases List.mem_append.mp hc with hc | hc
  · exact (p.mnemonic.name_chars c hc).2
  · unfold suffixChars at hc
    cases hs : p.suffix with
    | none =>
      rw [hs] at hc
      cases hc
    | some s =>
      rw [hs] at hc
      exact s.text_chars c hc

/-- The text determines what was printed. -/
theorem text_inj {p p' : Printed} (h : p.text = p'.text) : p = p' := by
  have hlist := congrArg String.toList h
  rw [toList_text, toList_text] at hlist
  have htab : ∀ p : Printed, ∀ c ∈ p.operandChars.head?, (c != '\t') = false := by
    intro p
    unfold operandChars
    split <;> simp
  have hdot : ∀ p : Printed, ∀ c ∈ p.suffixChars.head?, (c != '.') = false := by
    intro p
    unfold suffixChars
    cases p.suffix <;> simp
  obtain ⟨hlabel, hoperands⟩ :=
    cut_inj p.label_chars p'.label_chars (htab p) (htab p') hlist
  obtain ⟨hname, hsuffix⟩ := cut_inj (fun c hc => (p.mnemonic.name_chars c hc).1)
    (fun c hc => (p'.mnemonic.name_chars c hc).1) (hdot p) (hdot p') hlabel
  have hmnemonic : p.mnemonic = p'.mnemonic := by
    rw [← Option.some_inj, ← hashFind_name, hname, hashFind_name]
  obtain ⟨m, suffix, operands⟩ := p
  obtain ⟨m', suffix', operands'⟩ := p'
  obtain rfl : m = m' := hmnemonic
  obtain rfl : suffix = suffix' := suffixChars_inj hsuffix
  obtain rfl : operands = operands' := operandChars_inj hoperands
  rfl

/-- Two instructions that their texts state do the same if the texts are the same. -/
theorem States.of_text_eq {p p' : Printed} {priv : Bool} {dr dr' : DecodeRegs}
    (h : p.text = p'.text) (hs : p.States priv dr) (hs' : p'.States priv dr') :
    executed dr = executed dr' ∧ dr.imreg = dr'.imreg := by
  obtain rfl := text_inj h
  refine ⟨Option.some.inj (hs.1.symm.trans hs'.1), ?_⟩
  exact BitVec.eq_of_toInt_eq (hs.2.symm.trans hs'.2)

end Printed

end Xtc.Tools
