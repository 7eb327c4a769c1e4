import Xtc.Tools.Disassemble

/-!
# Suffix — `parse_extension` of `tc-xtc.c`

The text behind the dot of a mnemonic: `c` with the name of a condition, then `i` or `d`.  The
loop takes its parts one by one and asks for less than that.
-/

namespace Xtc.Tools

/-! ## The loop -/

/-- `ext_struct`, as far as `parse_extension` writes it. -/
structure ExtStruct where
  condition : BitVec 4
  flags : ExtFlags
  deriving DecidableEq

/-- What `parse_extension` reports before it returns -1. -/
inductive SuffixError
  | invalidI
  | invalidD
  | conditionalOrder
  | invalid
  deriving DecidableEq

/-- The search of `parse_condition`: the first name that the text starts with. -/
def findCondition (condstr : List Char) : Option CondCode :=
  conditionCodes.find? fun c => c.name.toList.isPrefixOf condstr

/-- `parse_condition`: the characters taken, and `*condition` afterwards. -/
def parseCondition (condstr : List Char) (condition : BitVec 4) : Nat × BitVec 4 :=
  match findCondition condstr with
  | some c => (c.name.length, c.encoding)
  -- not an error: nothing is taken and nothing is written
  | none => (0, condition)

def parseExtensionLoop (e : ExtStruct) : List Char → Except SuffixError ExtStruct
  | [] => .error .invalid
  | ch :: extstr =>
    if ch = 'i' then
      if e.flags ≠ .none then .error .invalidI
      else if extstr = [] then .ok { e with flags := .immed }
      else parseExtensionLoop { e with flags := .immed } extstr
    else if ch = 'd' then
      if e.flags ≠ .none then .error .invalidD
      else if extstr = [] then .ok { e with flags := .dreg }
      else parseExtensionLoop { e with flags := .dreg } extstr
    else if ch = 'c' then
      if e.flags = .immed ∨ e.flags = .dreg then .error .conditionalOrder
      else
        let (r, condition) := parseCondition extstr e.condition
        if extstr.drop r = [] then .ok { e with condition }
        else parseExtensionLoop { e with condition } (extstr.drop r)
    else .error .invalid
  termination_by extstr => extstr.length
  decreasing_by all_goals grind

def parseExtension (extstr : List Char) : Except SuffixError ExtStruct :=
  parseExtensionLoop ⟨0, .none⟩ extstr

/-! ## Spellings -/

def ExtFlags.letters : ExtFlags → List Char
  | .none => []
  | .immed => ['i']
  | .dreg => ['d']

def Suffix.letters (s : Suffix) : List Char :=
  (s.condition.elim [] fun c => 'c' :: c.name.toList) ++ s.flags.letters

/-- What `parse_extension` is to make of a suffix. -/
def Suffix.ext (s : Suffix) : ExtStruct := ⟨s.condition.elim 0 CondCode.encoding, s.flags⟩

def partName (part : Option CondCode) : List Char := part.elim [] fun c => c.name.toList

/-- A row of `c` parts, each with a name or without one, and a last letter. -/
def spell (parts : List (Option CondCode)) (flags : ExtFlags) : List Char :=
  parts.flatMap (fun part => 'c' :: partName part) ++ flags.letters

/-- The condition that the loop is left with: the last one that was named. -/
def lastNamed (condition : BitVec 4) (parts : List (Option CondCode)) : BitVec 4 :=
  parts.foldl (fun condition part => part.elim condition CondCode.encoding) condition

@[simp] theorem spell_cons (part : Option CondCode) (parts : List (Option CondCode))
    (flags : ExtFlags) :
    spell (part :: parts) flags = 'c' :: (partName part ++ spell parts flags) := by
  simp [spell]

/-! ## The search -/

/-- No name starts another one, so what follows a name does not matter. -/
theorem findCondition_name (c : CondCode) (rest : List Char) :
    findCondition (c.name.toList ++ rest) = some c := by
  cases c <;> rfl

theorem findCondition_spell (parts : List (Option CondCode)) (flags : ExtFlags) :
    findCondition (spell parts flags) = none := by
  cases parts with
  | nil => cases flags <;> rfl
  | cons part parts =>
    rw [spell_cons]
    rfl

theorem findCondition_part (part : Option CondCode) (parts : List (Option CondCode))
    (flags : ExtFlags) : findCondition (partName part ++ spell parts flags) = part := by
  cases part with
  | none => exact findCondition_spell parts flags
  | some c => exact findCondition_name c (spell parts flags)

theorem partName_findCondition (condstr : List Char) :
    ∃ rest, condstr = partName (findCondition condstr) ++ rest := by
  cases hfind : findCondition condstr with
  | none => exact ⟨condstr, rfl⟩
  | some c =>
    have hname : c.name.toList.isPrefixOf condstr = true := by
      simpa using List.find?_some hfind
    obtain ⟨rest, hrest⟩ := List.isPrefixOf_iff_prefix.mp hname
    exact ⟨rest, hrest.symm⟩

theorem parseCondition_eq (condstr : List Char) (condition : BitVec 4) :
    parseCondition condstr condition = ((partName (findCondition condstr)).length,
      (findCondition condstr).elim condition CondCode.encoding) := by
  unfold parseCondition
  cases findCondition condstr with
  | none => rfl
  | some c => cases c <;> rfl

theorem spell_injective {parts parts' : List (Option CondCode)} {flags flags' : ExtFlags}
    (h : spell parts flags = spell parts' flags') : parts = parts' ∧ flags = flags' := by
  induction parts generalizing parts' with
  | nil =>
    cases parts' with
    | nil => cases flags <;> cases flags' <;> simp_all [spell, ExtFlags.letters]
    | cons part' parts' =>
      rw [spell_cons] at h
      cases flags <;> simp [spell, ExtFlags.letters] at h
  | cons part parts ih =>
    cases parts' with
    | nil =>
      rw [spell_cons] at h
      cases flags' <;> simp [spell, ExtFlags.letters] at h
    | cons part' parts' =>
      rw [spell_cons, spell_cons, List.cons.injEq] at h
      have hpart : part = part' := by
        rw [← findCondition_part part parts flags, h.2, findCondition_part]
      subst hpart
      obtain ⟨rfl, rfl⟩ := ih (List.append_cancel_left h.2)
      exact ⟨rfl, rfl⟩

/-! ## What the loop accepts -/

theorem parseExtensionLoop_c (condition : BitVec 4) (extstr : List Char) :
    parseExtensionLoop ⟨condition, .none⟩ ('c' :: extstr) =
      let condition := (findCondition extstr).elim condition CondCode.encoding
      let rest := extstr.drop (partName (findCondition extstr)).length
      if rest = [] then .ok ⟨condition, .none⟩
      else parseExtensionLoop ⟨condition, .none⟩ rest := by
  rw [parseExtensionLoop, parseCondition_eq]
  simp

/-- Nothing may follow an `i` or a `d`. -/
theorem parseExtensionLoop_flagged {e e' : ExtStruct} (h : e.flags ≠ .none) (extstr : List Char) :
    parseExtensionLoop e extstr ≠ .ok e' := by
  cases extstr with
  | nil =>
    rw [parseExtensionLoop]
    nofun
  | cons ch extstr =>
    have hset : e.flags = .immed ∨ e.flags = .dreg := by
      cases hf : e.flags <;> simp_all
    rw [parseExtensionLoop]
    simp only [ne_eq, h, not_false_eq_true, if_true, hset]
    split_ifs <;> nofun

theorem parseExtensionLoop_spell (condition : BitVec 4) (parts : List (Option CondCode))
    (flags : ExtFlags) (h : spell parts flags ≠ []) :
    parseExtensionLoop ⟨condition, .none⟩ (spell parts flags) =
      .ok ⟨lastNamed condition parts, flags⟩ := by
  induction parts generalizing condition with
  | nil =>
    cases flags with
    | none => contradiction
    | immed => simp [spell, ExtFlags.letters, parseExtensionLoop, lastNamed]
    | dreg => simp [spell, ExtFlags.letters, parseExtensionLoop, lastNamed]
  | cons part parts ih =>
    rw [spell_cons, parseExtensionLoop_c, findCondition_part]
    simp only [List.drop_left]
    split
    case isTrue hnil =>
      obtain ⟨rfl, rfl⟩ := spell_injective (show spell parts flags = spell [] .none from hnil)
      rfl
    case isFalse hne => exact ih _ hne

theorem spell_of_parseExtensionLoop {condition : BitVec 4} {e : ExtStruct} {extstr : List Char}
    (h : parseExtensionLoop ⟨condition, .none⟩ extstr = .ok e) :
    ∃ parts, extstr = spell parts e.flags ∧ e.condition = lastNamed condition parts := by
  match extstr with
  | [] =>
    rw [parseExtensionLoop] at h
    contradiction
  | ch :: extstr =>
    by_cases hc : ch = 'c'
    · subst hc
      rw [parseExtensionLoop_c] at h
      obtain ⟨rest, hrest⟩ := partName_findCondition extstr
      have hlt : rest.length < extstr.length + 1 := by
        have hlen := congrArg List.length hrest
        rw [List.length_append] at hlen
        omega
      generalize findCondition extstr = part at h hrest
      have hdrop : extstr.drop (partName part).length = rest := by rw [hrest, List.drop_left]
      simp only [hdrop] at h
      split at h
      case isTrue hnil =>
        cases h
        exact ⟨[part], by rw [hrest, hnil, spell_cons]; rfl, rfl⟩
      case isFalse =>
        obtain ⟨parts, hparts, hcond⟩ := spell_of_parseExtensionLoop h
        exact ⟨part :: parts, by rw [hrest, hparts, spell_cons], hcond⟩
    · -- an `i` or a `d` has to be the last letter
      rw [parseExtensionLoop] at h
      simp only [ne_eq, not_true_eq_false, if_false, hc] at h
      split_ifs at h with hi hnil hd hnil
      · cases h
        exact ⟨[], by rw [hi, hnil]; rfl, rfl⟩
      · exact absurd h (parseExtensionLoop_flagged (by simp) extstr)
      · cases h
        exact ⟨[], by rw [hd, hnil]; rfl, rfl⟩
      · exact absurd h (parseExtensionLoop_flagged (by simp) extstr)
  termination_by extstr.length
  decreasing_by exact hlt

/-- The loop accepts every row of `c` parts, named or not. -/
theorem parseExtension_eq_ok_iff {extstr : List Char} (hne : extstr ≠ []) (e : ExtStruct) :
    parseExtension extstr = .ok e ↔
      ∃ parts, extstr = spell parts e.flags ∧ e.condition = lastNamed 0 parts := by
  constructor
  · exact spell_of_parseExtensionLoop
  · rintro ⟨parts, rfl, hcond⟩
    rw [parseExtension, parseExtensionLoop_spell 0 parts e.flags hne, ← hcond]

/-! ## The grammar -/

theorem Suffix.letters_eq_spell (x : Suffix) :
    x.letters = spell (x.condition.toList.map some) x.flags := by
  obtain ⟨condition, flags⟩ := x
  cases condition <;> simp [Suffix.letters, spell, partName]

theorem Suffix.ext_condition (x : Suffix) :
    x.ext.condition = lastNamed 0 (x.condition.toList.map some) := by
  obtain ⟨condition, flags⟩ := x
  cases condition <;> rfl

/-- A text is accepted exactly if it is a suffix, and then read as that suffix. -/
def SuffixExact (extstr : List Char) : Prop :=
  ∀ e, parseExtension extstr = .ok e ↔ ∃ x : Suffix, extstr = x.letters ∧ e = x.ext

/-- A `c` without a name, or more than one `c`. -/
def Sloppy (parts : List (Option CondCode)) : Prop := none ∈ parts ∨ 1 < parts.length

theorem not_sloppy_iff (parts : List (Option CondCode)) :
    ¬Sloppy parts ↔ ∃ condition : Option CondCode, parts = condition.toList.map some := by
  unfold Sloppy
  match parts with
  | [] => exact ⟨fun _ => ⟨none, rfl⟩, fun _ => by simp⟩
  | [some c] => exact ⟨fun _ => ⟨some c, rfl⟩, fun _ => by simp⟩
  | [none] | p :: q :: parts =>
    constructor
    · simp
    · rintro ⟨condition, h⟩
      cases condition <;> simp at h

theorem Suffix.letters_ne_spell (parts : List (Option CondCode)) (h : Sloppy parts)
    (flags : ExtFlags) (x : Suffix) : spell parts flags ≠ x.letters := by
  intro heq
  rw [x.letters_eq_spell] at heq
  rw [(spell_injective heq).1] at h
  exact (not_sloppy_iff _).mpr ⟨x.condition, rfl⟩ h

/-- The texts read as the grammar has it are all but the rows with a nameless `c` or with several
of them: those are no suffixes and are accepted. -/
theorem parseExtension_exact_iff {extstr : List Char} (hne : extstr ≠ []) :
    SuffixExact extstr ↔ ∀ parts flags, extstr = spell parts flags → ¬Sloppy parts := by
  constructor
  · rintro hexact parts flags rfl
    have hok := (parseExtension_eq_ok_iff hne ⟨lastNamed 0 parts, flags⟩).mpr ⟨parts, rfl, rfl⟩
    obtain ⟨x, hx, -⟩ := (hexact _).mp hok
    intro hsloppy
    exact Suffix.letters_ne_spell parts hsloppy flags x hx
  · intro hparts e
    rw [parseExtension_eq_ok_iff hne]
    constructor
    · rintro ⟨parts, hspell, hcond⟩
      obtain ⟨condition, rfl⟩ := (not_sloppy_iff parts).mp (hparts parts e.flags hspell)
      let x : Suffix := ⟨condition, e.flags⟩
      refine ⟨x, hspell.trans x.letters_eq_spell.symm, ?_⟩
      rw [← x.ext_condition] at hcond
      exact congrArg (ExtStruct.mk · e.flags) hcond
    · rintro ⟨x, rfl, rfl⟩
      exact ⟨_, x.letters_eq_spell, x.ext_condition⟩

/-- `cnei` is read as the condition `ne` with an immediate. -/
theorem cnei_exact : "cnei".toList ≠ [] ∧ SuffixExact "cnei".toList := by
  refine ⟨by decide, (parseExtension_exact_iff (by decide)).mpr ?_⟩
  intro parts flags h
  have hspell : spell [some .ne] .immed = spell parts flags := h
  rw [← (spell_injective hspell).1]
  simp [Sloppy]

/-- A bare `c` is accepted without a condition, and so is a second condition. -/
theorem nameless_and_twice :
    parseExtension "c".toList = .ok ⟨0, .none⟩ ∧
      parseExtension "cneceq".toList = .ok ⟨2, .none⟩ ∧
      (∀ x : Suffix, "c".toList ≠ x.letters) ∧ ∀ x : Suffix, "cneceq".toList ≠ x.letters := by
  refine ⟨?_, ?_, ?_, ?_⟩
  · exact parseExtensionLoop_spell 0 [none] .none (by decide)
  · exact parseExtensionLoop_spell 0 [some .ne, some .eq] .none (by decide)
  · exact Suffix.letters_ne_spell [none] (by simp [Sloppy]) .none
  · exact Suffix.letters_ne_spell [some .ne, some .eq] (by simp [Sloppy]) .none

end Xtc.Tools
