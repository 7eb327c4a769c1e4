import Xtc.App.Zstdio

/-!
# ZstdioBounds — which calls of `vsnprintf` stay inside their arrays

A format and its arguments ask for a list of directives.  Two numbers follow the run through it: the
room the function believes in, which is its variable `size`, and the bytes that are free in front of
the last one of the buffer.  They start equal.  A string that is as long as the room makes `size`
wrap, and from then on nothing keeps the function from writing beyond the buffer.
-/

namespace Xtc

namespace Zstdio

open CString (nul)

/-! ## Accesses in bounds -/

def Access.InBounds (n : BitVec 32) : Access → Prop
  | .str i => i < n.toNat
  | .sizespec i => i < 4
  | .temp i => 0 ≤ i ∧ i < 65

def Contained (n : BitVec 32) (v : Locals) : Prop := ∀ a ∈ v.log, a.InBounds n

/-- What a call with a buffer of `n` bytes should leave. -/
structure Safe (n : BitVec 32) (v : Locals) : Prop where
  contained : Contained n v
  terminated : ∃ j < n.toNat, v.buf j = nul
  returned : v.returned < n.toNat

/-! ## Directives -/

inductive Directive
  | char (c : Char)
  | string (s : List Char)
  | signed (n : BitVec 32)
  | unsigned (n : BitVec 32) (base : Base) (upper : Char)
  | width (c : Char)

def readUnsigned (base : Base) (upper : Char) (ap : List Arg) :
    Option (Option Directive × Bool × List Arg) :=
  (vaInt ap).map fun (n, ap) => (some (.unsigned n base upper), false, ap)

/-- A character of the format, behind a `%` or not: the directive it completes, and how it goes on.
-/
def readChar (isformat : Bool) (c : Char) (ap : List Arg) :
    Option (Option Directive × Bool × List Arg) :=
  if isformat then
    match c with
    | 'D' | 'd' => (vaInt ap).map fun (n, ap) => (some (.signed n), false, ap)
    | 'x' => readUnsigned .sixteen 'a' ap
    | 'X' => readUnsigned .sixteen 'A' ap
    | 'U' | 'u' => readUnsigned .ten 'A' ap
    | 's' => (vaStr ap).map fun (s, ap) => (some (.string s), false, ap)
    | 'l' => some (none, true, ap)
    | c => if c.isDigit then some (some (.width c), true, ap) else some (none, false, ap)
  else if c = '%' then some (none, true, ap)
  else some (some (.char c), false, ap)

/-- The directives of a format with its arguments; there are none where they do not match. -/
def directives : Bool → List Char → List Arg → Option (List Directive)
  | _, [], _ => some []
  | isformat, c :: format, ap =>
      match readChar isformat c ap with
      | some (d, isformat, ap) => (directives isformat format ap).map (d.toList ++ ·)
      | none => none

/-! ## Directives that fit -/

structure Space where
  -- what the function believes is left, its variable `size`
  room : Nat
  -- what is left in front of the last byte of the buffer
  free : Nat
  -- the width digits that were read
  digits : Nat

/-- Where a directive leads, if it keeps to its arrays and leaves a byte for the NUL. -/
def Directive.after : Directive → Space → Option Space
  | .char _, p => if 0 < p.free then some ⟨p.room - 1, p.free - 1, p.digits⟩ else none
  | .string s, p =>
      if s.length < p.room then
        if s.length ≤ p.free then
          some ⟨p.room - (s.length + 1), p.free - s.length, p.digits⟩
        else none
      -- the room is used up, and `size` wraps
      else if p.room ≤ p.free then some ⟨2 ^ 32 - 1, p.free - p.room, p.digits⟩ else none
  -- only the sign of a number can be written without an access beyond `temp`
  | .signed n, p =>
      if n.slt 0 ∧ p.room = 1 ∧ 0 < p.free ∧ p.digits < 4 then some ⟨0, p.free - 1, 0⟩ else none
  | .unsigned _ _ _, _ => none
  | .width c, p =>
      if c = '0' ∧ p.digits = 0 then some p
      else if p.digits < 4 then some { p with digits := p.digits + 1 }
      else none

def fits : List Directive → Space → Bool
  | [], _ => true
  | d :: ds, p => p.room == 0 || (d.after p).elim false (fits ds)

/-- A buffer of `n` bytes at the start. -/
def Space.start (n : BitVec 32) : Space := ⟨n.toNat - 1, n.toNat - 1, 0⟩

def Directive.perform : Directive → Locals → Locals
  | .char c, v => { v with fill := ' ' }.put c
  | .string s, v => copyString s v
  | .signed n, v => Zstdio.signed n v
  | .unsigned n base upper, v => number n base upper v
  | .width c, v => Zstdio.width c v

def performed (d : Option Directive) (v : Locals) : Locals := d.elim v fun d => d.perform v

theorem unsigned_eq (base : Base) (upper : Char) (v : Locals) :
    unsigned base upper v = (readUnsigned base upper v.ap).map fun (d, isformat, ap) =>
      performed d { v with isformat := isformat, ap := ap } := by
  unfold unsigned readUnsigned
  cases vaInt v.ap <;> rfl

/-- The loop body reads a character and performs what it completes. -/
theorem step_eq (c : Char) (v : Locals) :
    step c v = (readChar v.isformat c v.ap).map fun (d, isformat, ap) =>
      performed d { v with isformat := isformat, ap := ap } := by
  unfold step readChar
  by_cases hformat : v.isformat = true
  · have hself : { v with isformat := true, ap := v.ap } = v := by rw [← hformat]
    rw [if_pos hformat, if_pos hformat]
    split
    case h_3 | h_4 | h_5 | h_6 => exact unsigned_eq _ _ _
    case h_8 => exact congrArg some hself.symm
    case h_9 =>
      simp only [*]
      by_cases hdigit : c.isDigit = true
      · rw [if_pos hdigit, if_pos hdigit, Option.map_some, hself]
        rfl
      · rw [if_neg hdigit, if_neg hdigit]
        rfl
    case h_7 => cases vaStr v.ap <;> rfl
    all_goals cases vaInt v.ap <;> rfl
  · have hfalse : v.isformat = false := by simpa using hformat
    rw [if_neg hformat, if_neg hformat, hfalse]
    by_cases hpercent : c = '%'
    · rw [if_pos hpercent, if_pos hpercent]
      rfl
    · rw [if_neg hpercent, if_neg hpercent]
      rfl

/-! ## What a run leaves behind stays -/

structure Grows (v v' : Locals) : Prop where
  str : v.str ≤ v'.str
  log : v.log ⊆ v'.log

structure Writes (v v' : Locals) : Prop extends Grows v v' where
  isformat : v'.isformat = v.isformat
  ap : v'.ap = v.ap

section Grows

variable {v v' v'' : Locals}

theorem Grows.refl (v : Locals) : Grows v v := ⟨le_refl _, List.Subset.refl _⟩

theorem Grows.trans (h : Grows v v') (h' : Grows v' v'') : Grows v v'' :=
  ⟨h.str.trans h'.str, List.Subset.trans h.log h'.log⟩

theorem Writes.refl (v : Locals) : Writes v v := ⟨.refl v, rfl, rfl⟩

theorem Writes.trans (h : Writes v v') (h' : Writes v' v'') : Writes v v'' :=
  ⟨h.toGrows.trans h'.toGrows, h'.isformat.trans h.isformat, h'.ap.trans h.ap⟩

theorem Writes.of_log (hstr : v.str ≤ v'.str) (hlog : ∃ as, v'.log = v.log ++ as)
    (hisformat : v'.isformat = v.isformat) (hap : v'.ap = v.ap) : Writes v v' := by
  obtain ⟨as, has⟩ := hlog
  refine ⟨⟨hstr, ?_⟩, hisformat, hap⟩
  rw [has]
  exact List.subset_append_left _ _

theorem access_writes (as : List Access) (v : Locals) : Writes v (v.access as) :=
  .of_log (le_refl _) ⟨as, rfl⟩ rfl rfl

theorem put_writes (c : Char) (v : Locals) : Writes v (v.put c) :=
  .of_log (Nat.le_succ _) ⟨[.str v.str], rfl⟩ rfl rfl

theorem copyBack_writes (cs : List Char) (v : Locals) : Writes v (copyBack cs v) := by
  induction cs generalizing v with
  | nil => exact access_writes _ v
  | cons c cs ih =>
    unfold copyBack
    apply (access_writes [.temp (64 - cs.length)] v).trans
    by_cases hstop : c = nul ∨ (v.access [.temp (64 - cs.length)]).size = 0
    · rw [if_pos hstop]
      exact .refl _
    · rw [if_neg hstop]
      exact (put_writes c _).trans (ih _)

theorem utoa_writes (i : BitVec 32) (base : Base) (pad : Nat) (upper : Char) (v : Locals) :
    Writes v (utoa i base pad upper v) := by
  unfold utoa
  by_cases hsize : v.size < 1
  · rw [if_pos hsize]
    exact .of_log (le_refl _) ⟨[], (List.append_nil _).symm⟩ rfl rfl
  · rw [if_neg hsize]
    exact (access_writes _ v).trans (copyBack_writes _ _)

theorem takePad_writes (v : Locals) : Writes v (takePad v).2 := by
  unfold takePad
  by_cases hwidth : v.sizespec = []
  · rw [if_pos hwidth]
    exact .refl v
  · rw [if_neg hwidth]
    exact .of_log (le_refl _) ⟨_, rfl⟩ rfl rfl

theorem number_writes (n : BitVec 32) (base : Base) (upper : Char) (v : Locals) :
    Writes v (number n base upper v) :=
  (takePad_writes v).trans (utoa_writes ..)

theorem signed_writes (n : BitVec 32) (v : Locals) : Writes v (signed n v) := by
  unfold signed
  by_cases hneg : n.slt 0 = true
  · rw [if_pos hneg]
    exact (put_writes _ v).trans (number_writes ..)
  · rw [if_neg hneg]
    exact number_writes ..

theorem copyString_writes (s : List Char) (v : Locals) : Writes v (copyString s v) := by
  induction s generalizing v with
  | nil => exact .of_log (le_refl _) ⟨[], (List.append_nil _).symm⟩ rfl rfl
  | cons c s ih =>
    unfold copyString
    by_cases hsize : v.size = 0
    · rw [if_pos hsize]
      exact .of_log (le_refl _) ⟨[], (List.append_nil _).symm⟩ rfl rfl
    · rw [if_neg hsize]
      exact (put_writes c v).trans (ih _)

theorem width_writes (c : Char) (v : Locals) : Writes v (width c v) := by
  unfold width
  split
  · exact .of_log (le_refl _) ⟨_, rfl⟩ rfl rfl
  · exact .of_log (le_refl _) ⟨[], (List.append_nil _).symm⟩ rfl rfl

theorem perform_writes (d : Directive) (v : Locals) : Writes v (d.perform v) := by
  cases d with
  | char c => exact .of_log (Nat.le_succ _) ⟨_, rfl⟩ rfl rfl
  | string s => exact copyString_writes s v
  | signed n => exact signed_writes n v
  | unsigned n base upper => exact number_writes n base upper v
  | width c => exact width_writes c v

theorem loop_grows {format : List Char} (h : loop format v = some v') : Grows v v' := by
  induction format generalizing v with
  | nil =>
    obtain rfl : v = v' := by simpa [loop] using h
    exact .refl v
  | cons c format ih =>
    unfold loop at h
    by_cases hsize : v.size = 0
    · obtain rfl : v = v' := by simpa [hsize] using h
      exact .refl v
    · rw [if_neg hsize, step_eq] at h
      cases hread : readChar v.isformat c v.ap with
      | none => simp [hread] at h
      | some next =>
        obtain ⟨d, isformat, ap⟩ := next
        have hstep : Grows v (performed d { v with isformat := isformat, ap := ap }) := by
          cases d with
          | none => exact ⟨le_refl _, List.Subset.refl _⟩
          | some d =>
            have hd := perform_writes d { v with isformat := isformat, ap := ap }
            exact ⟨hd.str, hd.log⟩
        rw [hread] at h
        exact hstep.trans (ih h)

end Grows

/-- Nothing has gone wrong, and there is a byte left for the NUL. -/
def Sound (n : BitVec 32) (v : Locals) : Prop := Contained n v ∧ v.str < n.toNat

theorem Grows.sound {n : BitVec 32} {v v' : Locals} (h : Grows v v') (hsound : Sound n v') :
    Sound n v :=
  ⟨fun a ha => hsound.1 a (h.log ha), h.str.trans_lt hsound.2⟩

/-! ## One directive -/

section Directives

variable {n : BitVec 32} {v : Locals}

theorem contained_append (as : List Access) {w : Locals} (hlog : w.log = v.log ++ as) :
    Contained n w ↔ Contained n v ∧ ∀ a ∈ as, a.InBounds n := by
  unfold Contained
  rw [hlog]
  simp only [List.mem_append]
  constructor
  · intro h
    exact ⟨fun a ha => h a (.inl ha), fun a ha => h a (.inr ha)⟩
  · rintro ⟨h, h'⟩ a (ha | ha)
    · exact h a ha
    · exact h' a ha

theorem put_contained (c : Char) : Contained n (v.put c) ↔ Contained n v ∧ v.str < n.toNat := by
  rw [contained_append [.str v.str] rfl]
  simp [Access.InBounds]

theorem size_pred (h : v.size ≠ 0) : (v.size - 1).toNat = v.size.toNat - 1 := by
  have hpos : v.size.toNat ≠ 0 := fun h' => h (BitVec.eq_of_toNat_eq h')
  rw [BitVec.toNat_sub]
  have := v.size.isLt
  simp
  omega

theorem size_wraps (h : v.size = 0) : (v.size - 1).toNat = 2 ^ 32 - 1 := by
  rw [h]
  rfl

/-- What copying a string changes, whether it ends before the room does or not. -/
structure Copied (n : BitVec 32) (s : List Char) (v v' : Locals) : Prop where
  str : v'.str = v.str + min s.length v.size.toNat
  size : v'.size.toNat =
    if s.length < v.size.toNat then v.size.toNat - (s.length + 1) else 2 ^ 32 - 1
  sizespec : v'.sizespec = v.sizespec
  contained : Contained n v → v.str + min s.length v.size.toNat ≤ n.toNat → Contained n v'

theorem copyString_copied (s : List Char) (v : Locals) : Copied n s v (copyString s v) := by
  induction s generalizing v with
  | nil =>
    unfold copyString
    constructor
    case str => simp
    case size =>
      by_cases hsize : v.size = 0
      · rw [size_wraps hsize, hsize]
        rfl
      · have hpos : v.size.toNat ≠ 0 := fun h => hsize (BitVec.eq_of_toNat_eq h)
        rw [size_pred hsize, if_pos (by simp only [List.length_nil]; omega)]
        rfl
    case sizespec => rfl
    case contained => exact fun h _ => h
  | cons c s ih =>
    unfold copyString
    by_cases hsize : v.size = 0
    · rw [if_pos hsize]
      have hzero : v.size.toNat = 0 := by rw [hsize]; rfl
      constructor
      case str => simp [hzero]
      case size => rw [if_neg (by omega), size_wraps hsize]
      case sizespec => rfl
      case contained => exact fun h _ => h
    · rw [if_neg hsize]
      have hpos : v.size.toNat ≠ 0 := fun h => hsize (BitVec.eq_of_toNat_eq h)
      have hput : (v.put c).size.toNat = v.size.toNat - 1 := size_pred hsize
      have hstr : (v.put c).str = v.str + 1 := rfl
      have h := ih (v.put c)
      constructor
      case str =>
        rw [h.str, hput, hstr, List.length_cons]
        omega
      case size =>
        rw [h.size, hput, List.length_cons]
        by_cases hlt : s.length + 1 < v.size.toNat
        · rw [if_pos hlt, if_pos (by omega)]
          omega
        · rw [if_neg hlt, if_neg (by omega)]
      case sizespec => exact h.sizespec
      case contained =>
        intro hin hroom
        rw [List.length_cons] at hroom
        apply h.contained
        · rw [put_contained]
          exact ⟨hin, by omega⟩
        · rw [hput, hstr]
          omega

/-- A number that is converted with room left writes its NUL behind `temp`. -/
theorem utoa_uncontained (i : BitVec 32) (base : Base) (pad : Nat) (upper : Char)
    (hsize : v.size ≠ 0) : ¬ Contained n (utoa i base pad upper v) := by
  have hone : ¬ v.size < 1 := by
    intro hlt
    apply hsize
    apply BitVec.eq_of_toNat_eq
    have : v.size.toNat < 1 := hlt
    simp
    omega
  unfold utoa
  rw [if_neg hone]
  dsimp only
  intro hin
  have htemp := hin (.temp 65) ?_
  · simp [Access.InBounds] at htemp
  · apply (copyBack_writes _ _).log
    apply List.mem_append_right
    exact List.mem_map.mpr ⟨0, List.mem_range.mpr (Nat.succ_pos _), rfl⟩

theorem takePad_contained :
    Contained n (takePad v).2 ↔ Contained n v ∧ v.sizespec.length < 4 := by
  unfold takePad
  by_cases hwidth : v.sizespec = []
  · rw [if_pos hwidth, hwidth]
    exact ⟨fun h => ⟨h, by decide⟩, fun h => h.1⟩
  · rw [if_neg hwidth]
    rw [contained_append ((List.range (v.sizespec.length + 1)).map .sizespec) rfl]
    constructor
    · rintro ⟨hin, hspec⟩
      refine ⟨hin, hspec (.sizespec v.sizespec.length) ?_⟩
      exact List.mem_map.mpr ⟨_, List.mem_range.mpr (Nat.lt_succ_self _), rfl⟩
    · rintro ⟨hin, hlt⟩
      refine ⟨hin, ?_⟩
      intro a ha
      obtain ⟨j, hj, rfl⟩ := List.mem_map.mp ha
      have := List.mem_range.mp hj
      show j < 4
      omega

theorem takePad_frame : (takePad v).2.size = v.size ∧ (takePad v).2.str = v.str := by
  unfold takePad
  split <;> exact ⟨rfl, rfl⟩

theorem number_eq (i : BitVec 32) (base : Base) (upper : Char) (v : Locals) :
    number i base upper v = utoa i base (takePad v).1 upper (takePad v).2 := rfl

theorem number_uncontained (i : BitVec 32) (base : Base) (upper : Char) (hsize : v.size ≠ 0) :
    ¬ Contained n (number i base upper v) := by
  rw [number_eq]
  apply utoa_uncontained
  rw [takePad_frame.1]
  exact hsize

/-- Without room nothing is converted, but the width is still taken. -/
theorem number_full (i : BitVec 32) (base : Base) (upper : Char) (hsize : v.size = 0) :
    number i base upper v = (takePad v).2 := by
  have hzero : (takePad v).2.size = 0 := by rw [takePad_frame.1, hsize]
  have hone : (takePad v).2.size < 1 := by
    rw [hzero]
    decide
  rw [number_eq, utoa, if_pos hone, BitVec.sub_self]
  exact congrArg (fun z => { (takePad v).2 with size := z }) hzero.symm

end Directives

/-! ## The run -/

/-- The run has stayed in bounds and is where `p` says. -/
structure Space.At (p : Space) (n : BitVec 32) (v : Locals) : Prop where
  room : v.size.toNat = p.room
  free : v.str + p.free + 1 = n.toNat
  digits : v.sizespec.length = p.digits
  contained : Contained n v

section Run

variable {n : BitVec 32} {v : Locals} {p : Space}

theorem Space.At.sound (h : p.At n v) : Sound n v := ⟨h.contained, by have := h.free; omega⟩

/-- A directive leads to the place it should, or out of bounds. -/
def Leads (n : BitVec 32) (q : Option Space) (v : Locals) : Prop :=
  match q with
  | some q => q.At n v
  | none => ¬ Sound n v

theorem char_leads (h : p.At n v) (hsize : v.size ≠ 0) (c : Char) :
    Leads n ((Directive.char c).after p) ((Directive.char c).perform v) := by
  have hfree := h.free
  have hstr : ((Directive.char c).perform v).str = v.str + 1 := rfl
  rw [Directive.after]
  by_cases hpos : 0 < p.free
  · rw [if_pos hpos]
    constructor
    case room =>
      show (v.size - 1).toNat = p.room - 1
      rw [size_pred hsize, h.room]
    case free =>
      rw [hstr]
      show v.str + 1 + (p.free - 1) + 1 = n.toNat
      omega
    case digits => exact h.digits
    case contained =>
      show Contained n ({ v with fill := ' ' }.put c)
      rw [put_contained]
      exact ⟨h.contained, h.sound.2⟩
  · rw [if_neg hpos]
    intro hsound
    have := hsound.2
    omega

theorem string_leads (h : p.At n v) (s : List Char) :
    Leads n ((Directive.string s).after p) ((Directive.string s).perform v) := by
  have hfree := h.free
  have hcopied := copyString_copied (n := n) s v
  have hstr := hcopied.str
  have hsize := hcopied.size
  rw [h.room] at hstr hsize
  have hcontained := hcopied.contained h.contained
  rw [h.room] at hcontained
  show Leads n _ (copyString s v)
  rw [Directive.after]
  by_cases hlt : s.length < p.room
  · rw [if_pos hlt] at hsize ⊢
    by_cases hle : s.length ≤ p.free
    · rw [if_pos hle]
      refine ⟨hsize, ?_, hcopied.sizespec ▸ h.digits, hcontained (by omega)⟩
      rw [hstr]
      dsimp only
      omega
    · rw [if_neg hle]
      intro hsound
      have := hsound.2
      omega
  · rw [if_neg hlt] at hsize ⊢
    by_cases hle : p.room ≤ p.free
    · rw [if_pos hle]
      refine ⟨hsize, ?_, hcopied.sizespec ▸ h.digits, hcontained (by omega)⟩
      rw [hstr]
      dsimp only
      omega
    · rw [if_neg hle]
      intro hsound
      have := hsound.2
      omega

theorem number_leads (i : BitVec 32) (base : Base) (upper : Char) (hsize : v.size ≠ 0) :
    Leads n none (number i base upper v) :=
  fun hsound => number_uncontained i base upper hsize hsound.1

theorem takePad_sizespec : (takePad v).2.sizespec = [] := by
  unfold takePad
  split
  · assumption
  · rfl

theorem signed_leads (h : p.At n v) (hsize : v.size ≠ 0) (i : BitVec 32) :
    Leads n ((Directive.signed i).after p) ((Directive.signed i).perform v) := by
  have hfree := h.free
  have hpred := size_pred hsize
  have hroom := h.room
  rw [Directive.after]
  show Leads n _ (signed i v)
  unfold signed
  by_cases hneg : i.slt 0 = true
  · rw [if_pos hneg]
    by_cases hone : p.room = 1
    · -- the sign takes the last of the room
      have hfull : (v.put '-').size = 0 := by
        apply BitVec.eq_of_toNat_eq
        show (v.size - 1).toNat = 0
        omega
      rw [number_full _ _ _ hfull]
      have hstr : (takePad (v.put '-')).2.str = v.str + 1 := takePad_frame.2
      have hspec : (v.put '-').sizespec.length = p.digits := h.digits
      by_cases hfits : i.slt 0 = true ∧ p.room = 1 ∧ 0 < p.free ∧ p.digits < 4
      · rw [if_pos hfits]
        constructor
        case room => rw [takePad_frame.1, hfull]; rfl
        case free =>
          rw [hstr]
          show v.str + 1 + (p.free - 1) + 1 = n.toNat
          omega
        case digits => rw [takePad_sizespec]; rfl
        case contained =>
          rw [takePad_contained, put_contained, hspec]
          exact ⟨⟨h.contained, h.sound.2⟩, hfits.2.2.2⟩
      · rw [if_neg hfits]
        rintro ⟨hin, hlt⟩
        rw [takePad_contained, hspec] at hin
        exact hfits ⟨hneg, hone, by omega, hin.2⟩
    · rw [if_neg (fun hfits => hone hfits.2.1)]
      apply number_leads
      intro hzero
      have : (v.size - 1).toNat = 0 := by
        show (v.put '-').size.toNat = 0
        rw [hzero]
        rfl
      have hpos : v.size.toNat ≠ 0 := fun h' => hsize (BitVec.eq_of_toNat_eq h')
      omega
  · rw [if_neg hneg, if_neg (fun hfits => hneg hfits.1)]
    exact number_leads _ _ _ hsize

theorem width_leads (h : p.At n v) (c : Char) :
    Leads n ((Directive.width c).after p) ((Directive.width c).perform v) := by
  have hnil : v.sizespec = [] ↔ p.digits = 0 := by rw [← h.digits, List.length_eq_zero_iff]
  rw [Directive.after]
  show Leads n _ (width c v)
  unfold width
  by_cases hzero : c = '0' ∧ p.digits = 0
  · have hskip : ¬ (c ≠ '0' ∨ v.sizespec ≠ []) := by
      rw [ne_eq, ne_eq, hnil]
      tauto
    rw [if_pos hzero, if_neg hskip]
    exact ⟨h.room, h.free, h.digits, h.contained⟩
  · have hkeep : c ≠ '0' ∨ v.sizespec ≠ [] := by
      rw [ne_eq, ne_eq, hnil]
      tauto
    rw [if_neg hzero, if_pos hkeep]
    have hlog : Contained n { v.access [.sizespec v.sizespec.length] with
        sizespec := v.sizespec ++ [c] } ↔ Contained n v ∧ p.digits < 4 := by
      rw [contained_append [.sizespec v.sizespec.length] rfl]
      simp [Access.InBounds, h.digits]
    by_cases hlt : p.digits < 4
    · rw [if_pos hlt]
      refine ⟨h.room, h.free, ?_, hlog.mpr ⟨h.contained, hlt⟩⟩
      show (v.sizespec ++ [c]).length = p.digits + 1
      rw [List.length_append, h.digits]
      rfl
    · rw [if_neg hlt]
      intro hsound
      exact hlt (hlog.mp hsound.1).2

theorem perform_leads (h : p.At n v) (hsize : v.size ≠ 0) (d : Directive) :
    Leads n (d.after p) (d.perform v) := by
  cases d with
  | char c => exact char_leads h hsize c
  | string s => exact string_leads h s
  | signed i => exact signed_leads h hsize i
  | unsigned i base upper => exact number_leads i base upper hsize
  | width c => exact width_leads h c

variable {format : List Char} {ds : List Directive}

theorem directives_cons {isformat : Bool} {c : Char} {ap : List Arg}
    (h : directives isformat (c :: format) ap = some ds) :
    ∃ d isformat' ap' ds', readChar isformat c ap = some (d, isformat', ap') ∧
      directives isformat' format ap' = some ds' ∧ ds = d.toList ++ ds' := by
  unfold directives at h
  cases hread : readChar isformat c ap with
  | none => simp [hread] at h
  | some next =>
    obtain ⟨d, isformat', ap'⟩ := next
    rw [hread] at h
    obtain ⟨ds', hds', rfl⟩ := Option.map_eq_some_iff.mp h
    exact ⟨d, isformat', ap', ds', rfl, hds', rfl⟩

theorem directives_perform {isformat : Bool} {ap : List Arg} (d : Option Directive)
    (h : directives isformat format ap = some ds) :
    directives (performed d { v with isformat := isformat, ap := ap }).isformat format
      (performed d { v with isformat := isformat, ap := ap }).ap = some ds := by
  cases d with
  | none => exact h
  | some d =>
    have hd := perform_writes d { v with isformat := isformat, ap := ap }
    show directives (d.perform _).isformat format (d.perform _).ap = some ds
    rw [hd.isformat, hd.ap]
    exact h

theorem loop_isSome (h : directives v.isformat format v.ap = some ds) :
    ∃ v', loop format v = some v' := by
  induction format generalizing v ds with
  | nil => exact ⟨v, rfl⟩
  | cons c format ih =>
    unfold loop
    by_cases hsize : v.size = 0
    · exact ⟨v, if_pos hsize⟩
    · obtain ⟨d, isformat, ap, ds', hread, hds', -⟩ := directives_cons h
      rw [if_neg hsize, step_eq, hread]
      exact ih (directives_perform d hds')

theorem fits_full (ds : List Directive) (h : p.room = 0) : fits ds p = true := by
  cases ds with
  | nil => rfl
  | cons d ds => simp [fits, h]

/-- The loop stays in bounds if and only if the directives fit. -/
theorem loop_sound_iff {v' : Locals} (hds : directives v.isformat format v.ap = some ds)
    (hp : p.At n v) (h : loop format v = some v') : Sound n v' ↔ fits ds p = true := by
  induction format generalizing v ds p with
  | nil =>
    obtain rfl : v = v' := by simpa [loop] using h
    obtain rfl : ds = [] := by simpa [directives] using hds.symm
    exact iff_of_true hp.sound rfl
  | cons c format ih =>
    unfold loop at h
    by_cases hsize : v.size = 0
    · obtain rfl : v = v' := by simpa [hsize] using h
      have hroom : p.room = 0 := by
        rw [← hp.room, hsize]
        rfl
      exact iff_of_true hp.sound (fits_full ds hroom)
    · obtain ⟨d, isformat, ap, ds', hread, hds', rfl⟩ := directives_cons hds
      rw [if_neg hsize, step_eq, hread] at h
      have hnext := directives_perform (v := v) d hds'
      have hp' : p.At n { v with isformat := isformat, ap := ap } :=
        ⟨hp.room, hp.free, hp.digits, hp.contained⟩
      cases d with
      | none => exact ih hnext hp' h
      | some d =>
        have hroom : p.room ≠ 0 := by
          rw [← hp.room]
          exact fun h' => hsize (BitVec.eq_of_toNat_eq h')
        have hleads := perform_leads hp' hsize d
        have hfits : fits (d :: ds') p = (d.after p).elim false (fits ds') := by
          simp [fits, hroom]
        show Sound n v' ↔ fits (d :: ds') p = true
        rw [hfits]
        cases hafter : d.after p with
        | none =>
          rw [hafter] at hleads
          refine iff_of_false ?_ Bool.false_ne_true
          exact fun hsound => hleads ((loop_grows h).sound hsound)
        | some q =>
          rw [hafter] at hleads
          exact ih hnext hleads h

/-- A call stays in its arrays, leaves a NUL in the buffer and returns less than its size if and
only if the directives fit. -/
theorem vsnprintf_safe_iff (hn : n ≠ 0) (buf : Nat → Char) (format : List Char) (ap : List Arg)
    (hds : directives false format ap = some ds) :
    (∃ v, vsnprintf buf n format ap = some v ∧ Safe n v) ↔ fits ds (.start n) = true := by
  have hpos : n.toNat ≠ 0 := fun h => hn (BitVec.eq_of_toNat_eq h)
  have hstart : (Space.start n).At n ⟨buf, 0, n - 1, [], false, nul, ap, []⟩ := by
    constructor
    case room => exact size_pred (v := ⟨buf, 0, n, [], false, nul, ap, []⟩) hn
    case free =>
      show 0 + (n.toNat - 1) + 1 = n.toNat
      omega
    case digits => rfl
    case contained =>
      intro a ha
      cases ha
  obtain ⟨v, hv⟩ := loop_isSome (v := ⟨buf, 0, n - 1, [], false, nul, ap, []⟩) hds
  have hresult : vsnprintf buf n format ap = some (v.store nul) := by rw [vsnprintf, hv]; rfl
  have hcontained : Contained n (v.store nul) ↔ Sound n v := by
    rw [contained_append [.str v.str] rfl]
    simp [Access.InBounds, Sound]
  rw [← loop_sound_iff hds hstart hv, hresult]
  constructor
  · rintro ⟨w, hw, hsafe⟩
    cases hw
    exact hcontained.mp hsafe.contained
  · intro hsound
    refine ⟨_, rfl, hcontained.mpr hsound, ⟨v.str, hsound.2, Function.update_self ..⟩, ?_⟩
    show (BitVec.ofNat 32 v.str).toInt < n.toNat
    have hlt := hsound.2
    have hnat : (BitVec.ofNat 32 v.str).toNat = v.str := by
      rw [BitVec.toNat_ofNat, Nat.mod_eq_of_lt (by omega)]
    rw [BitVec.toInt_eq_toNat_cond, hnat]
    split <;> omega

/-- There is room for everything. -/
theorem vsnprintf_safe_string :
    fits [.char 'a', .string ['x', 'y'], .char 'b'] (.start 8) = true ∧
      ∃ v, vsnprintf (fun _ => ' ') 8 ['a', '%', 's', 'b'] [.str ['x', 'y']] = some v ∧
        Safe 8 v := by
  have hds : directives false ['a', '%', 's', 'b'] [.str ['x', 'y']] =
      some [.char 'a', .string ['x', 'y'], .char 'b'] := rfl
  refine ⟨by decide, ?_⟩
  rw [vsnprintf_safe_iff (by decide) _ _ _ hds]
  decide

/-- With a buffer of two bytes the string fills the room and `size` wraps; the two characters behind
it and the NUL go to the second, the third and the fourth byte. -/
theorem vsnprintf_overruns :
    directives false ['%', 's', 'a', 'b'] [.str ['x']] =
        some [.string ['x'], .char 'a', .char 'b'] ∧
      (vsnprintf (fun _ => ' ') 2 ['%', 's', 'a', 'b'] [.str ['x']]).map Locals.log =
        some [.str 0, .str 1, .str 2, .str 3] ∧
      ¬ ∃ v, vsnprintf (fun _ => ' ') 2 ['%', 's', 'a', 'b'] [.str ['x']] = some v ∧ Safe 2 v := by
  have hlog : (vsnprintf (fun _ => ' ') 2 ['%', 's', 'a', 'b'] [.str ['x']]).map Locals.log =
      some [.str 0, .str 1, .str 2, .str 3] := by decide
  refine ⟨rfl, hlog, ?_⟩
  rintro ⟨v, hv, hsafe⟩
  rw [hv] at hlog
  have hin := hsafe.contained (.str 2) (by rw [Option.some.inj hlog]; decide)
  have : 2 < 2 := hin
  omega

end Run

end Zstdio

end Xtc
