import Xtc.App.MonitorNumber
import Xtc.App.MonitorSplit

/-!
# Monitor — the command lines of the exception monitor, `interactive_line` of `irq.c`

What a command does is the list of its actions, in order.  Reading or printing a token that is NULL
or was never set is an action of its own, and nothing is said of what comes behind it.
-/

namespace Xtc

namespace Monitor

open CString

inductive Action
  | printstring (s : List Char)
  | printhex (v : Unsigned)
  /-- The word at an address, read and printed. -/
  | printhexAt (address : Unsigned)
  | store (address data : Unsigned)
  | traceSetMemmatch (address : Unsigned)
  | dumpTracebuffer
  | dumpMembuffer
  | restartFromIrq
  | restartApp
  /-- A token that is NULL or not set is read or printed. -/
  | wild
  deriving DecidableEq

/-- The actions of a piece of code, and the value it comes back with, if it does. -/
structure Out (α : Type) where
  actions : List Action
  value : Option α

namespace Out

instance : Monad Out where
  pure a := ⟨[], some a⟩
  bind x f :=
    match x.value with
    | none => ⟨x.actions, none⟩
    | some a => ⟨x.actions ++ (f a).actions, (f a).value⟩

def act (a : Action) : Out Unit := ⟨[a], some ()⟩

def print (s : String) : Out Unit := act (.printstring s.toList)

/-- An action that control does not come back from. -/
def stop {α : Type} (a : Action) : Out α := ⟨[a], none⟩

section Actions

variable {α β : Type} {a : Action} {x : Out α}

@[simp] theorem actions_pure (b : β) : (pure b : Out β).actions = [] := rfl

@[simp] theorem actions_act (a : Action) : (act a).actions = [a] := rfl

@[simp] theorem actions_stop (a : Action) : (stop a : Out β).actions = [a] := rfl

@[simp] theorem actions_act_bind (f : Unit → Out β) :
    (act a >>= f).actions = a :: (f ()).actions := rfl

@[simp] theorem actions_pure_bind (v : α) (f : α → Out β) :
    (pure v >>= f).actions = (f v).actions := rfl

@[simp] theorem actions_print (s : String) : (print s).actions = [.printstring s.toList] := rfl

@[simp] theorem actions_print_bind (s : String) (f : Unit → Out β) :
    (print s >>= f).actions = .printstring s.toList :: (f ()).actions := rfl

@[simp] theorem actions_stop_bind (f : α → Out β) : (stop a >>= f).actions = [a] := rfl

end Actions

end Out

/-! ## The commands -/

def tokenAt (line : List Char) (tokens : List (Option Nat)) (i : Nat) : Out (List Char) :=
  match tokens[i]? with
  | some (some p) => pure (string (line.drop p))
  | _ => Out.stop .wild

section Commands

variable (tokens : Nat → Out (List Char)) (ntok : Int)

def invalidAddress (i : Nat) (what : String) : Out Unit := do
  Out.print what
  let s ← tokens i
  Out.act (.printstring s)
  Out.print "'\n"

def inspect : Out Unit :=
  if ntok < 2 then Out.print "Invalid number of arguments\n"
  else do
    Out.print "Addr '"
    let s ← tokens 1
    Out.act (.printstring s)
    Out.print "'\n"
    let s ← tokens 1
    let address := parseinteger s 0
    if address.1 < 0 then invalidAddress tokens 1 "Invalid address '"
    else do
      Out.print "0x"
      Out.act (.printhex address.2)
      Out.print ": "
      Out.act (.printhexAt address.2)
      Out.print "\n"

def writedata : Out Unit :=
  if ntok < 3 then Out.print "Invalid number of arguments\n"
  else do
    let s ← tokens 1
    let address := parseinteger s 0
    if address.1 < 0 then invalidAddress tokens 1 "Invalid address '"
    else do
      let s ← tokens 2
      let data := parseinteger s 0
      if data.1 < 0 then invalidAddress tokens 2 "Invalid data '"
      else do
        Out.print "0x"
        Out.act (.printhex address.2)
        Out.print " <- "
        Out.act (.printhex data.2)
        Out.act (.store address.2 data.2)
        Out.print " : "
        Out.act (.printhexAt address.2)
        Out.print "\n"

def addmemorywatch : Out Unit :=
  if ntok < 2 then Out.print "Invalid number of arguments\n"
  else do
    let s ← tokens 1
    let address := parseinteger s 0
    if address.1 < 0 then invalidAddress tokens 1 "Invalid address '"
    else do
      Out.print "Setting memory address match to 0x"
      Out.act (.printhex address.2)
      Out.print "\n"
      Out.act (.traceSetMemmatch address.2)

def ok (command : Out Unit) : Out Int := do
  command
  Out.print "Ok\r\n"
  pure 1

/-- `interactive_line` behind `split`. -/
def execute : Out Int := do
  let command ← tokens 0
  if command = "x".toList then ok (inspect tokens ntok)
  else if command = "w".toList then ok (writedata tokens ntok)
  else if command = "c".toList then pure 0
  else if command = "t".toList then ok do
    Out.act .dumpTracebuffer
    Out.act .dumpMembuffer
  else if command = "mw".toList then ok (addmemorywatch tokens ntok)
  else if command = "r".toList then do
    Out.print "Restarting application (reset)."
    Out.stop .restartFromIrq
  else if command = "ra".toList then do
    Out.print "Restarting application."
    Out.stop .restartApp
  else ok do
    Out.print "Invalid command "
    Out.act (.printstring command)
    Out.print "\n"

end Commands

/-- `interactive_line`, and `last` behind it. -/
def interactiveLine (line : List Char) (last : Option Nat) : Out Int × Option Nat :=
  if line.getD 0 nul = nul then (pure 1, last)
  else
    let s := split line last 8
    if s.ret < 0 then
      (do Out.print "Invalid line\n"; pure 1, s.last)
    else (execute (tokenAt s.line s.tokens) s.ret, s.last)

/-! ## Command lines -/

/-- A line as it has been typed: printable characters, a NUL, and what the array held before. -/
structure Typed where
  text : List Char
  rest : List Char
  printable : ∀ c ∈ text, ' ' ≤ c ∧ c ≤ '~'
  short : text.length ≤ 127

def Typed.array (l : Typed) : List Char := l.text ++ nul :: l.rest

/-- No token that is NULL or not set is read or printed. -/
def Typed.Safe (l : Typed) (last : Option Nat) : Prop :=
  .wild ∉ (interactiveLine l.array last).1.actions

/-- `split`, where it is called, returns the number of words, if they fit with their NULL. -/
def Typed.SplitCounts (l : Typed) (last : Option Nat) : Prop :=
  l.text = [] ∨ (split l.array last 8).ret =
    if (words l.text).length < 8 then ((words l.text).length : Int) else -1

def TooFew (ws : List (List Char)) : Prop :=
  (ws.head? = some "x".toList ∨ ws.head? = some "mw".toList) ∧ ws.length < 2 ∨
    ws.head? = some "w".toList ∧ ws.length < 3

def Action.touchesMemory : Action → Bool
  | .printhexAt _ => true
  | .store .. => true
  | _ => false

/-- The first thing said is that the number of arguments is invalid, and memory is left alone. -/
def Rejected (actions : List Action) : Prop :=
  actions.head? = some (.printstring "Invalid number of arguments\n".toList) ∧
    ∀ a ∈ actions, a.touchesMemory = false

def Typed.Rejects (l : Typed) (last : Option Nat) : Prop :=
  TooFew (words l.text) → Rejected (interactiveLine l.array last).1.actions

/-! ## What the code makes of the words -/

/-- The words as the commands see them: behind the last one nothing may be read. -/
def wordAt (ws : List (List Char)) (i : Nat) : Out (List Char) :=
  match ws[i]? with
  | some w => pure w
  | none => Out.stop .wild

theorem Stored.tokenAt {line : List Char} {ptrs : List (Option Nat)} {ws : List (List Char)}
    (h : Stored line ptrs ws) (i : Nat) : tokenAt line (ptrs ++ [none]) i = wordAt ws i := by
  induction h generalizing i with
  | nil => cases i <;> rfl
  | cons hw _ ih =>
    obtain ⟨q, rfl, htok, hnul⟩ := hw
    cases i with
    | zero =>
      show pure (string (line.drop q)) = _
      rw [htok.string hnul]
      rfl
    | succ i => exact ih i

section Line

variable (l : Typed) (last : Option Nat)

theorem Typed.noNul : nul ∉ l.text := by
  intro h
  have := (l.printable nul h).1
  exact absurd this (by decide)

theorem interactiveLine_empty (h : l.text = []) :
    interactiveLine l.array last = (pure 1, last) := by
  rw [interactiveLine, Typed.array, h]
  rfl

theorem getD_array (h : l.text ≠ []) : l.array.getD 0 nul ≠ nul := by
  obtain ⟨c, cs, hcs⟩ := List.exists_cons_of_ne_nil h
  rw [Typed.array, hcs]
  exact fun heq => l.noNul (by rw [hcs]; exact heq ▸ List.mem_cons_self)

theorem text_ne_nil (h : words l.text ≠ []) : l.text ≠ [] := by
  intro hnil
  apply h
  rw [hnil]
  rfl

theorem interactiveLine_blank (h : l.text ≠ []) (hws : words l.text = []) :
    (interactiveLine l.array last).1.actions = [.wild] := by
  obtain ⟨hret, htokens⟩ := split_blank (x := l.rest) last l.noNul (show 2 < 8 by decide) hws
  rw [interactiveLine, if_neg (getD_array l h)]
  simp only [Typed.array, hret, htokens]
  rfl

theorem interactiveLine_words (h : words l.text ≠ []) (hlen : (words l.text).length < 7) :
    (interactiveLine l.array last).1 =
      execute (wordAt (words l.text)) ((words l.text).length + 1) := by
  obtain ⟨hret, ptrs, htokens, hstored⟩ :=
    (split_words (x := l.rest) last l.noNul (show 2 ≤ 8 by decide) rfl h).2 (by omega)
  have hread : tokenAt (split l.array last 8).line (split l.array last 8).tokens =
      wordAt (words l.text) := by
    funext i
    rw [Typed.array, htokens]
    exact hstored.tokenAt i
  rw [Typed.array] at hread
  rw [interactiveLine, if_neg (getD_array l (text_ne_nil l h))]
  simp only [Typed.array, hret, hread]
  rw [if_neg (by omega)]

theorem interactiveLine_full (hlen : 7 ≤ (words l.text).length) :
    (interactiveLine l.array last).1.actions = [.printstring "Invalid line\n".toList] := by
  have h : words l.text ≠ [] := fun hnil => by simp [hnil] at hlen
  have hret := (split_words (x := l.rest) last l.noNul (show 2 ≤ 8 by decide) rfl h).1 (by omega)
  rw [interactiveLine, if_neg (getD_array l (text_ne_nil l h))]
  simp only [Typed.array, hret]
  rfl

end Line

section Words

variable {a b c : List Char} {t : List (List Char)} {ntok : Int} {x : Out Unit}

theorem wild_ok : .wild ∈ (ok x).actions ↔ .wild ∈ x.actions := by
  obtain ⟨as, v⟩ := x
  cases v with
  | none => exact Iff.rfl
  | some u =>
    show .wild ∈ as ++ [Action.printstring "Ok\r\n".toList] ↔ _
    simp

@[simp] theorem wordAt_zero : wordAt (a :: t) 0 = pure a := rfl

@[simp] theorem wordAt_succ (i : Nat) : wordAt (a :: t) (i + 1) = wordAt t i := rfl

@[simp] theorem wordAt_nil (i : Nat) : wordAt [] i = Out.stop .wild := rfl

theorem invalidAddress_safe {ws : List (List Char)} {i : Nat} (h : wordAt ws i = pure b)
    (what : String) : .wild ∉ (invalidAddress (wordAt ws) i what).actions := by
  simp only [invalidAddress, h, Out.actions_print_bind, Out.actions_pure_bind, Out.actions_act_bind,
    Out.actions_print, List.mem_cons, List.not_mem_nil, reduceCtorEq, or_self, not_false_eq_true]

theorem inspect_wild (hntok : ¬ ntok < 2) :
    .wild ∈ (inspect (wordAt (a :: t)) ntok).actions ↔ t = [] := by
  rw [inspect, if_neg hntok]
  cases t with
  | nil =>
    simp only [wordAt_succ, wordAt_nil, Out.actions_print_bind, Out.actions_stop_bind,
      List.mem_cons, true_or, or_true]
  | cons b t =>
    simp only [wordAt_succ, wordAt_zero, Out.actions_print_bind, Out.actions_pure_bind,
      Out.actions_act_bind, List.mem_cons, reduceCtorEq, false_or, iff_false]
    split_ifs
    · exact invalidAddress_safe rfl _
    · simp only [Out.actions_print_bind, Out.actions_act_bind, Out.actions_print, List.mem_cons,
        List.not_mem_nil, reduceCtorEq, or_self, not_false_eq_true]

theorem addmemorywatch_wild (hntok : ¬ ntok < 2) :
    .wild ∈ (addmemorywatch (wordAt (a :: t)) ntok).actions ↔ t = [] := by
  rw [addmemorywatch, if_neg hntok]
  cases t with
  | nil =>
    simp only [wordAt_succ, wordAt_nil, Out.actions_stop_bind, List.mem_cons, true_or]
  | cons b t =>
    simp only [wordAt_succ, wordAt_zero, Out.actions_pure_bind, reduceCtorEq, iff_false]
    split_ifs
    · exact invalidAddress_safe rfl _
    · simp only [Out.actions_print_bind, Out.actions_act_bind, Out.actions_act, List.mem_cons,
        List.not_mem_nil, reduceCtorEq, or_self, not_false_eq_true]

theorem writedata_wild (hntok : ¬ ntok < 3) :
    .wild ∈ (writedata (wordAt (a :: b :: t)) ntok).actions ↔ t = [] ∧ ∃ n, Denotes b n := by
  rw [writedata, if_neg hntok]
  simp only [wordAt_succ, wordAt_zero, Out.actions_pure_bind]
  by_cases hneg : (parseinteger b 0).1 < 0
  · rw [if_pos hneg]
    have hno := (parseinteger_lt_iff b 0).mp hneg
    have hsafe : .wild ∉ (invalidAddress (wordAt (a :: b :: t)) 1 "Invalid address '").actions :=
      invalidAddress_safe rfl _
    exact ⟨fun h => absurd h hsafe, fun h => absurd h.2 hno⟩
  · rw [if_neg hneg]
    have hyes := not_not.mp (mt (parseinteger_lt_iff b 0).mpr hneg)
    rw [and_iff_left hyes]
    cases t with
    | nil =>
      simp only [wordAt_nil, Out.actions_stop_bind, List.mem_cons, true_or]
    | cons c t =>
      simp only [wordAt_zero, Out.actions_pure_bind, reduceCtorEq, iff_false]
      split_ifs
      · exact invalidAddress_safe rfl _
      · simp only [Out.actions_print_bind, Out.actions_act_bind, Out.actions_print, List.mem_cons,
          List.not_mem_nil, reduceCtorEq, or_self, not_false_eq_true]

/-- The operand that is missing is read all the same. -/
def ReadsMissing (ws : List (List Char)) : Prop :=
  ws = ["x".toList] ∨ ws = ["mw".toList] ∨ ∃ b, ws = ["w".toList, b] ∧ ∃ n, Denotes b n

theorem execute_x (t : List (List Char)) :
    execute (wordAt ("x".toList :: t)) ntok = ok (inspect (wordAt ("x".toList :: t)) ntok) := rfl

theorem execute_w (t : List (List Char)) :
    execute (wordAt ("w".toList :: t)) ntok = ok (writedata (wordAt ("w".toList :: t)) ntok) := rfl

theorem execute_mw (t : List (List Char)) : execute (wordAt ("mw".toList :: t)) ntok =
    ok (addmemorywatch (wordAt ("mw".toList :: t)) ntok) := rfl

theorem execute_safe (hx : a ≠ "x".toList) (hw : a ≠ "w".toList) (hmw : a ≠ "mw".toList) :
    .wild ∉ (execute (wordAt (a :: t)) ntok).actions := by
  simp only [execute, wordAt_zero, Out.actions_pure_bind, if_neg hx, if_neg hw, if_neg hmw]
  split_ifs
  · simp only [Out.actions_pure, List.not_mem_nil, not_false_eq_true]
  · simp only [wild_ok, Out.actions_act_bind, Out.actions_act, List.mem_cons, List.not_mem_nil,
      reduceCtorEq, or_self, not_false_eq_true]
  · simp only [Out.actions_print_bind, Out.actions_stop, List.mem_cons, List.not_mem_nil,
      reduceCtorEq, or_self, not_false_eq_true]
  · simp only [Out.actions_print_bind, Out.actions_stop, List.mem_cons, List.not_mem_nil,
      reduceCtorEq, or_self, not_false_eq_true]
  · simp only [wild_ok, Out.actions_print_bind, Out.actions_act_bind, Out.actions_print,
      List.mem_cons, List.not_mem_nil, reduceCtorEq, or_self, not_false_eq_true]

theorem execute_wild : .wild ∈ (execute (wordAt (a :: t)) (t.length + 1 + 1)).actions ↔
    ReadsMissing (a :: t) := by
  simp only [ReadsMissing, List.cons.injEq]
  by_cases hx : a = "x".toList
  · rw [hx, execute_x, wild_ok, inspect_wild (by omega)]
    simp
  by_cases hmw : a = "mw".toList
  · rw [hmw, execute_mw, wild_ok, addmemorywatch_wild (by omega)]
    simp
  by_cases hw : a = "w".toList
  · rw [hw, execute_w, wild_ok]
    cases t with
    | nil => simp [writedata]
    | cons b t =>
      rw [writedata_wild (by rw [List.length_cons]; omega)]
      simp
  · have hsafe : .wild ∉ (execute (wordAt (a :: t)) (t.length + 1 + 1)).actions :=
      execute_safe hx hw hmw
    simp only [hsafe, hx, hw, hmw, false_and, exists_false, or_self]

theorem tooFew_iff {ws : List (List Char)} : TooFew ws ↔
    ws = ["x".toList] ∨ ws = ["mw".toList] ∨ ws = ["w".toList] ∨ ∃ b, ws = ["w".toList, b] := by
  rcases ws with _ | ⟨a, _ | ⟨b, _ | ⟨c, t⟩⟩⟩
  · simp [TooFew]
  · simp only [TooFew, List.head?_cons, Option.some.injEq, List.length_singleton, Nat.one_lt_ofNat,
      and_true, List.cons.injEq, reduceCtorEq, and_false, exists_false, or_false]
    exact or_assoc
  · simp [TooFew]
  · simp [TooFew]

theorem rejected_w : Rejected (execute (wordAt ["w".toList]) 2).actions := ⟨rfl, by decide⟩

theorem not_rejected_x : ¬ Rejected (execute (wordAt ["x".toList]) 2).actions :=
  fun h => absurd h.1 (by decide)

theorem not_rejected_mw : ¬ Rejected (execute (wordAt ["mw".toList]) 2).actions :=
  fun h => absurd h.1 (by decide)

theorem head_ok {act : Action} (h : x.actions.head? = some act) :
    (ok x).actions.head? = some act := by
  obtain ⟨as, v⟩ := x
  cases v with
  | none => exact h
  | some u =>
    show (as ++ [Action.printstring "Ok\r\n".toList]).head? = _
    rw [List.head?_append, h]
    rfl

theorem not_rejected_w (b : List Char) :
    ¬ Rejected (execute (wordAt ["w".toList, b]) 3).actions := by
  rintro ⟨h, -⟩
  by_cases hneg : (parseinteger b 0).1 < 0
  · -- the address is refused, not the number of arguments
    have hhead : (writedata (wordAt ["w".toList, b]) 3).actions.head? =
        some (.printstring "Invalid address '".toList) := by
      rw [writedata, if_neg (by decide)]
      simp only [wordAt_succ, wordAt_zero, Out.actions_pure_bind, if_pos hneg]
      rfl
    rw [execute_w, head_ok hhead] at h
    exact absurd h (by decide)
  · -- the missing data is read
    have hhead : (writedata (wordAt ["w".toList, b]) 3).actions.head? = some .wild := by
      rw [writedata, if_neg (by decide)]
      simp only [wordAt_succ, wordAt_zero, Out.actions_pure_bind, if_neg hneg]
      rfl
    rw [execute_w, head_ok hhead] at h
    exact absurd h (by decide)

end Words

/-! ## Lines and sessions -/

section Lines

variable (l : Typed) (last : Option Nat)

theorem safe_iff : l.Safe last ↔
    l.text = [] ∨ words l.text ≠ [] ∧ ¬ ReadsMissing (words l.text) := by
  rw [Typed.Safe]
  by_cases htext : l.text = []
  · rw [interactiveLine_empty l last htext]
    simp [htext]
  · by_cases hws : words l.text = []
    · rw [interactiveLine_blank l last htext hws]
      simp [htext, hws]
    · by_cases hlen : (words l.text).length < 7
      · rw [interactiveLine_words l last hws hlen]
        obtain ⟨a, t, hat⟩ := List.exists_cons_of_ne_nil hws
        rw [hat, List.length_cons]
        push_cast
        rw [execute_wild]
        simp [htext]
      · rw [interactiveLine_full l last (by omega)]
        have hmany : ¬ ReadsMissing (words l.text) := by
          rintro (h | h | ⟨b, h, -⟩) <;> simp [h] at hlen
        simp [htext, hws, hmany]

theorem splitCounts_iff : l.SplitCounts last ↔ l.text = [] ∨ 8 ≤ (words l.text).length := by
  apply or_congr Iff.rfl
  by_cases hws : words l.text = []
  · rw [Typed.array, (split_blank (x := l.rest) last l.noNul (show 2 < 8 by decide) hws).1, hws]
    simp
  · obtain ⟨hfull, hfits⟩ :=
      split_words (x := l.rest) last l.noNul (show 2 ≤ 8 by decide) rfl hws
    rw [Typed.array]
    by_cases hlen : (words l.text).length < 7
    · rw [(hfits (by omega)).1, if_pos (by omega)]
      omega
    · rw [hfull (by omega)]
      by_cases hseven : (words l.text).length < 8
      · rw [if_pos hseven]
        omega
      · rw [if_neg hseven]
        exact ⟨fun _ => by omega, fun _ => rfl⟩

theorem rejects_iff : l.Rejects last ↔
    ¬ (words l.text = ["x".toList] ∨ words l.text = ["mw".toList] ∨
      ∃ b, words l.text = ["w".toList, b]) := by
  have hactions : ∀ ws, words l.text = ws → ws ≠ [] → ws.length < 7 →
      (interactiveLine l.array last).1.actions =
        (execute (wordAt ws) (ws.length + 1)).actions := by
    rintro ws rfl hne hlen
    rw [interactiveLine_words l last hne hlen]
  rw [Typed.Rejects, tooFew_iff]
  constructor
  · rintro h (hws | hws | ⟨b, hws⟩)
    · have hrej := h (Or.inl hws)
      rw [hactions _ hws (by simp) (by decide)] at hrej
      exact not_rejected_x hrej
    · have hrej := h (Or.inr (Or.inl hws))
      rw [hactions _ hws (by simp) (by decide)] at hrej
      exact not_rejected_mw hrej
    · have hrej := h (Or.inr (Or.inr (Or.inr ⟨b, hws⟩)))
      rw [hactions _ hws (by simp) (by simp)] at hrej
      exact not_rejected_w b hrej
  · rintro hnot (hws | hws | hws | ⟨b, hws⟩)
    · exact absurd (Or.inl hws) hnot
    · exact absurd (Or.inr (Or.inl hws)) hnot
    · rw [hactions _ hws (by simp) (by decide)]
      exact rejected_w
    · exact absurd (Or.inr (Or.inr ⟨b, hws⟩)) hnot

end Lines

/-- What is asked of a line. -/
structure Typed.Survives (l : Typed) (last : Option Nat) : Prop where
  safe : l.Safe last
  counts : l.SplitCounts last
  rejects : l.Rejects last

/-- A sequence of lines, each with what the one before has left in `last`. -/
def Survive : Option Nat → List Typed → Prop
  | _, [] => True
  | last, l :: ls => l.Survives last ∧ Survive (interactiveLine l.array last).2 ls

theorem survives_iff (l : Typed) (last : Option Nat) :
    l.Survives last ↔ l.text = [] ∨ 8 ≤ (words l.text).length := by
  constructor
  · intro h
    exact (splitCounts_iff l last).mp h.counts
  · intro h
    refine ⟨(safe_iff l last).mpr ?_, (splitCounts_iff l last).mpr h, (rejects_iff l last).mpr ?_⟩
    · rcases h with h | h
      · exact Or.inl h
      · right
        constructor
        · intro hws
          simp [hws] at h
        · rintro (hws | hws | ⟨b, hws, -⟩) <;> simp [hws] at h
    · rcases h with h | h
      · rw [h]
        simp
      · rintro (hws | hws | ⟨b, hws⟩) <;> simp [hws] at h

/-- The monitor keeps its promises on a sequence of lines exactly when every line is empty or has
too many words. -/
theorem survive_iff (lines : List Typed) (last : Option Nat) :
    Survive last lines ↔ ∀ l ∈ lines, l.text = [] ∨ 8 ≤ (words l.text).length := by
  induction lines generalizing last with
  | nil => simp [Survive]
  | cons l ls ih => rw [Survive, survives_iff, ih, List.forall_mem_cons]

def lineX : Typed where
  text := "x".toList
  rest := []
  printable := by simp
  short := by decide

def lineBlank : Typed where
  text := "  ".toList
  rest := []
  printable := by simp
  short := by decide

/-- `x` without an address: two tokens are counted, and the NULL behind the command is printed.  A
blank line: the NULL is taken for the command. -/
theorem missing_tokens_read :
    (split lineX.array none 8).ret = 2 ∧ ¬ lineX.Safe none ∧ ¬ lineX.Rejects none ∧
      ¬ lineX.Survives none ∧ ¬ lineBlank.Safe none := by
  have hx : ¬ lineX.Safe none := by
    unfold Typed.Safe
    decide
  refine ⟨by decide, hx, ?_, fun h => hx h.safe, ?_⟩
  · intro h
    have hrej := h (tooFew_iff.mpr (Or.inl (by decide)))
    exact absurd hrej.1 (by decide)
  · unfold Typed.Safe
    decide

end Monitor

end Xtc
