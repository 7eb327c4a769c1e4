import Xtc.Softsim.Executor
import Xtc.Lib.Bits

/-!
# Guest — what a round of the simulator touches

A round fetches two bytes without looking at their index, and makes at most one access for the
guest.  A word that is not mapped is reported; a byte or a halfword is so only at an address of the
input and output.  So a round keeps to the guest if and only if its instruction is in the memory and
a narrow access is in the memory too, or is turned down for another reason.
-/

namespace Xtc

namespace Softsim

open EStateM (Result)

/-! ## What a round should do -/

def Access.Mapped (a : Access) : Prop := a.addr.toNat + a.width.bytes ≤ memsize

def Access.Io (a : Access) : Prop := a.width = .word ∧ isIo a.addr = true

def Result.machine {α : Type} : Result Abort Machine α → Machine
  | .ok _ m => m
  | .error _ m => m

def Result.Aborts {α : Type} (r : Result Abort Machine α) : Prop := ∃ why m, r = .error why m

/-- The state of the guest, without the fields that a round sets before it calls the handler. -/
structure SameGuest (c c' : Cpu) : Prop where
  memory : c'.memory = c.memory
  regs : c'.regs = c.regs
  spr : c'.spr = c.spr
  flags : c'.zero = c.zero ∧ c'.carry = c.carry ∧ c'.sign = c.sign
  imm : c'.imm = c.imm ∧ c'.imflag = c.imflag

/-- A round touches only the bytes of the guest, and an access that is neither mapped nor a word of
the input and output ends in an abort without a change of the guest. -/
structure Contained (cpu : Cpu) (r : Result Abort Machine Unit) : Prop where
  touched : ∀ i ∈ (Result.machine r).touched, i.toNat < memsize
  reported : ∀ a ∈ (Result.machine r).accesses, ¬ a.Mapped → ¬ a.Io →
    Result.Aborts r ∧ SameGuest cpu (Result.machine r).cpu

def asks (cpu : Cpu) (o : Opcode) : Option Access :=
  let addr := cpu.regs o.r1 + o.immed
  match o.opv with
  | .stw | .stspr | .ldw | .ldspr => some ⟨.word, addr⟩
  | .sts | .lds => some ⟨.short, addr⟩
  | .stb | .ldb | .ldbp => some ⟨.byte, addr⟩
  | _ => none

def Access.aligned (a : Access) : Bool :=
  match a.width with
  | .word => a.addr &&& 3 == 0
  | .short => a.addr &&& 1 == 0
  | .byte => true

/-- An access that is in the memory, or whose failure is noticed. -/
def Access.Checked (a : Access) : Prop :=
  a.width = .word ∨ a.aligned = false ∨ a.addr.toNat < memsize ∨ isIo a.addr = true

def instruction (cpu : Cpu) : BitVec 16 := cpu.memory cpu.pc ++ cpu.memory (cpu.pc + 1)

/-- The instruction is in the memory, and its access is one that is checked. -/
structure InGuest (cpu : Cpu) : Prop where
  fetch : cpu.pc.toNat + 1 < memsize
  access : ∀ o ∈ decodeSingleOpcode cpu (instruction cpu), ∀ a ∈ asks cpu o, a.Checked

/-! ## Computations without an access -/

section Sim

variable {α β : Type}

/-- Nothing is touched and nothing asked for. -/
def Quiet (x : Sim α) : Prop :=
  ∀ s, (Result.machine (x s)).touched = s.touched ∧ (Result.machine (x s)).accesses = s.accesses

theorem quiet_modifyCpu (f : Cpu → Cpu) : Quiet (modifyCpu f) := fun _ => ⟨rfl, rfl⟩

theorem quiet_throw (why : Abort) : Quiet (throw why : Sim α) := fun _ => ⟨rfl, rfl⟩

theorem quiet_pure (v : α) : Quiet (pure v : Sim α) := fun _ => ⟨rfl, rfl⟩

theorem quiet_unhandledOp (o : Opcode) : Quiet (unhandledOp o) := fun _ => ⟨rfl, rfl⟩

/-! ## Computations with one access -/

/-- A computation that makes the access `a`: it touches only the guest, and if the access fails, it
aborts without a change where the access is checked and goes on where it is not. -/
structure Serves (a : Access) (x : Sim α) (s : Machine) : Prop where
  accesses : (Result.machine (x s)).accesses = s.accesses ++ [a]
  touched : ∀ i ∈ (Result.machine (x s)).touched, i ∈ s.touched ∨ i.toNat < memsize
  kept : ∀ i ∈ s.touched, i ∈ (Result.machine (x s)).touched
  fails : ¬ a.Mapped → ¬ a.Io → a.Checked → ∃ why s', x s = .error why s' ∧ s'.cpu = s.cpu
  passes : ¬ a.Checked → ∃ v s', x s = .ok v s'

theorem Serves.congr {a : Access} {x y : Sim α} {s : Machine} (h : Serves a y s)
    (heq : x s = y s) : Serves a x s := by
  constructor
  case accesses => rw [heq, h.accesses]
  case touched => rw [heq]; exact h.touched
  case kept => rw [heq]; exact h.kept
  case fails => rw [heq]; exact h.fails
  case passes => rw [heq]; exact h.passes

theorem bind_modify_eq (x : Sim α) (f : α → Cpu → Cpu) (s : Machine) :
    (x >>= fun w => modifyCpu (f w)) s =
      match x s with
      | .ok w s' => .ok () { s' with cpu := f w s'.cpu }
      | .error why s' => .error why s' := by
  show EStateM.bind x _ s = _
  unfold EStateM.bind
  cases x s <;> rfl

theorem bind_modify_log (x : Sim α) (f : α → Cpu → Cpu) (s : Machine) :
    (Result.machine ((x >>= fun w => modifyCpu (f w)) s)).touched =
        (Result.machine (x s)).touched ∧
      (Result.machine ((x >>= fun w => modifyCpu (f w)) s)).accesses =
        (Result.machine (x s)).accesses := by
  rw [bind_modify_eq]
  cases x s <;> exact ⟨rfl, rfl⟩

theorem Serves.bind_modify {a : Access} {x : Sim α} {s : Machine} (h : Serves a x s)
    (f : α → Cpu → Cpu) : Serves a (x >>= fun w => modifyCpu (f w)) s := by
  obtain ⟨htouched, haccesses⟩ := bind_modify_log x f s
  constructor
  case accesses => rw [haccesses, h.accesses]
  case touched => rw [htouched]; exact h.touched
  case kept => rw [htouched]; exact h.kept
  case fails =>
    intro hmapped hio hchecked
    obtain ⟨why, s', hx, hcpu⟩ := h.fails hmapped hio hchecked
    refine ⟨why, s', ?_, hcpu⟩
    rw [bind_modify_eq, hx]
  case passes =>
    intro hchecked
    obtain ⟨v, s', hx⟩ := h.passes hchecked
    refine ⟨(), { s' with cpu := f v s'.cpu }, ?_⟩
    rw [bind_modify_eq, hx]

end Sim

/-! ## Addresses -/

section Addresses

variable {addr : Word}

theorem and_not_eq {m : Word} (h : addr &&& m = 0) : addr &&& ~~~ m = addr := by
  apply BitVec.eq_of_getLsbD_eq
  intro i hi
  have hbit : (addr &&& m).getLsbD i = false := by
    rw [h]
    exact BitVec.getLsbD_zero
  rw [BitVec.getLsbD_and] at hbit
  simp only [BitVec.getLsbD_and, BitVec.getLsbD_not, hi, decide_true, Bool.true_and]
  cases hx : addr.getLsbD i <;> cases hm : m.getLsbD i <;> simp_all

theorem mod_four (h : addr &&& 3 = 0) : addr.toNat % 4 = 0 := by
  have hnat := congrArg BitVec.toNat h
  rw [BitVec.toNat_and] at hnat
  exact (Nat.and_two_pow_sub_one_eq_mod addr.toNat 2).symm.trans hnat

theorem mod_two (h : addr &&& 1 = 0) : addr.toNat % 2 = 0 := by
  have hnat := congrArg BitVec.toNat h
  rw [BitVec.toNat_and] at hnat
  exact (Nat.and_two_pow_sub_one_eq_mod addr.toNat 1).symm.trans hnat

theorem add_lt_memsize {k : Nat} (h : addr.toNat + k < memsize) :
    (addr + BitVec.ofNat 32 k).toNat < memsize := by
  have hsize : memsize = 16384 := rfl
  rw [BitVec.toNat_add, BitVec.toNat_ofNat]
  omega

theorem Access.aligned_mod {a : Access} (h : a.aligned = true) :
    a.addr.toNat % a.width.bytes = 0 := by
  unfold Access.aligned at h
  cases hw : a.width with
  | byte => exact Nat.mod_one _
  | short =>
    rw [hw] at h
    exact mod_two (by simpa using h)
  | word =>
    rw [hw] at h
    exact mod_four (by simpa using h)

/-- The memory ends with a whole word. -/
theorem Access.mapped_of_lt {a : Access} (h : a.aligned = true) (hlt : a.addr.toNat < memsize) :
    a.Mapped := by
  have hmod := Access.aligned_mod h
  unfold Access.Mapped
  have hsize : memsize = 16384 := rfl
  cases hw : a.width with
  | byte =>
    show a.addr.toNat + 1 ≤ memsize
    omega
  | short =>
    rw [hw] at hmod
    have : a.addr.toNat % 2 = 0 := hmod
    show a.addr.toNat + 2 ≤ memsize
    omega
  | word =>
    rw [hw] at hmod
    have : a.addr.toNat % 4 = 0 := hmod
    show a.addr.toNat + 4 ≤ memsize
    omega

end Addresses

/-! ## The handlers of `memory.c` -/

section Handlers

variable {α : Type} {s : Machine} {r r' : BitVec 4} {val offset : Word}

/-- The bytes of the guest are touched and nothing is asked for. -/
def Touches (x : Sim α) (n : Nat) (addr : Word) : Prop :=
  ∀ s, (Result.machine (x s)).touched =
      s.touched ++ (List.range n).map (fun k => addr + BitVec.ofNat 32 k) ∧
    (Result.machine (x s)).accesses = s.accesses

theorem touches_readMemU32 (addr : Word) : Touches (readMemU32 addr) 4 addr := by
  intro s
  refine ⟨?_, rfl⟩
  show s.touched ++ [addr] ++ [addr + 1] ++ [addr + 2] ++ [addr + 3] = _
  simp [List.range_succ]

theorem touches_readMemU16 (addr : Word) : Touches (readMemU16 addr) 2 addr := by
  intro s
  refine ⟨?_, rfl⟩
  show s.touched ++ [addr] ++ [addr + 1] = _
  simp [List.range_succ]

theorem touches_readMemU8 (addr : Word) : Touches (readMemU8 addr) 1 addr := by
  intro s
  refine ⟨?_, rfl⟩
  show s.touched ++ [addr] = _
  simp

theorem touches_storeMemU32 (addr val : Word) : Touches (storeMemU32 addr val) 4 addr := by
  intro s
  refine ⟨?_, rfl⟩
  show s.touched ++ [addr] ++ [addr + 1] ++ [addr + 2] ++ [addr + 3] = _
  simp [List.range_succ]

theorem touches_storeMemU16 (addr val : Word) : Touches (storeMemU16 addr val) 2 addr := by
  intro s
  refine ⟨?_, rfl⟩
  show s.touched ++ [addr] ++ [addr + 1] = _
  simp [List.range_succ]

theorem touches_storeMemU8 (addr val : Word) : Touches (storeMemU8 addr val) 1 addr := by
  intro s
  refine ⟨?_, rfl⟩
  show s.touched ++ [addr] = _
  simp

/-- An access with its assertion, and what is done with it in the memory, in the input and output,
and elsewhere. -/
def accessed (a : Access) (inMemory inIo elsewhere : Sim α) : Sim α := do
  request a
  check a.aligned
  if a.addr.toNat < memsize then inMemory else if isIo a.addr then inIo else elsewhere

theorem accessed_eq (a : Access) (inMemory inIo elsewhere : Sim α) (s : Machine) :
    accessed a inMemory inIo elsewhere s =
      if a.aligned then
        (if a.addr.toNat < memsize then inMemory else if isIo a.addr then inIo else elsewhere)
          { s with accesses := s.accesses ++ [a] }
      else .error .assertion { s with accesses := s.accesses ++ [a] } := by
  show EStateM.bind (check a.aligned) _ { s with accesses := s.accesses ++ [a] } = _
  unfold EStateM.bind check
  cases a.aligned <;> rfl

theorem accessed_serves {a : Access} {inMemory inIo elsewhere : Sim α}
    (hmem : Touches inMemory a.width.bytes a.addr) (hio : Quiet inIo) (helse : Quiet elsewhere)
    (hword : a.width = .word → ∃ why, elsewhere = throw why)
    (hnarrow : a.width ≠ .word → (∃ why, inIo = throw why) ∧ ∃ v, elsewhere = pure v) :
    Serves a (accessed a inMemory inIo elsewhere) s := by
  have heq := accessed_eq a inMemory inIo elsewhere s
  cases haligned : a.aligned with
  | false =>
    rw [haligned, if_neg Bool.false_ne_true] at heq
    constructor
    case accesses => rw [heq]; rfl
    case touched => rw [heq]; exact fun i hi => .inl hi
    case kept => rw [heq]; exact fun i hi => hi
    case fails => exact fun _ _ _ => ⟨_, _, heq, rfl⟩
    case passes => exact fun h => absurd (.inr (.inl haligned)) h
  | true =>
    rw [haligned, if_pos rfl] at heq
    by_cases hlt : a.addr.toNat < memsize
    · have hmapped := Access.mapped_of_lt haligned hlt
      rw [if_pos hlt] at heq
      obtain ⟨htouched, haccesses⟩ := hmem { s with accesses := s.accesses ++ [a] }
      constructor
      case accesses => rw [heq, haccesses]
      case touched =>
        rw [heq, htouched]
        intro i hi
        rcases List.mem_append.mp hi with hi | hi
        · exact .inl hi
        · obtain ⟨k, hk, rfl⟩ := List.mem_map.mp hi
          have := List.mem_range.mp hk
          have : a.addr.toNat + a.width.bytes ≤ memsize := hmapped
          exact .inr (add_lt_memsize (by omega))
      case kept =>
        rw [heq, htouched]
        exact fun i hi => List.mem_append_left _ hi
      case fails => exact fun h => absurd hmapped h
      case passes => exact fun h => absurd (.inr (.inr (.inl hlt))) h
    · rw [if_neg hlt] at heq
      by_cases hisio : isIo a.addr = true
      · rw [if_pos hisio] at heq
        obtain ⟨htouched, haccesses⟩ := hio { s with accesses := s.accesses ++ [a] }
        constructor
        case accesses => rw [heq, haccesses]
        case touched => rw [heq, htouched]; exact fun i hi => .inl hi
        case kept => rw [heq, htouched]; exact fun i hi => hi
        case fails =>
          intro _ hno _
          have hwidth : a.width ≠ .word := fun h => hno ⟨h, hisio⟩
          obtain ⟨⟨why, rfl⟩, -⟩ := hnarrow hwidth
          exact ⟨why, _, heq, rfl⟩
        case passes => exact fun h => absurd (.inr (.inr (.inr hisio))) h
      · rw [if_neg hisio] at heq
        obtain ⟨htouched, haccesses⟩ := helse { s with accesses := s.accesses ++ [a] }
        constructor
        case accesses => rw [heq, haccesses]
        case touched => rw [heq, htouched]; exact fun i hi => .inl hi
        case kept => rw [heq, htouched]; exact fun i hi => hi
        case fails =>
          rintro - - (hwidth | hno | hno | hno)
          · obtain ⟨why, rfl⟩ := hword hwidth
            exact ⟨why, _, heq, rfl⟩
          · rw [haligned] at hno
            cases hno
          · exact absurd hno hlt
          · exact absurd hno hisio
        case passes =>
          intro h
          obtain ⟨-, v, rfl⟩ := hnarrow fun hwidth => h (.inl hwidth)
          exact ⟨v, _, heq⟩

theorem word_serves {addr : Word} {inMemory inIo : Sim α} (hmem : Touches inMemory 4 addr)
    (hio : Quiet inIo) :
    Serves ⟨.word, addr⟩ (accessed ⟨.word, addr⟩ inMemory inIo (throw (.unmapped addr))) s :=
  accessed_serves hmem hio (quiet_throw _) (fun _ => ⟨_, rfl⟩) (fun h => absurd rfl h)

theorem narrow_serves {width : Width} {addr : Word} {inMemory : Sim α} (v : α)
    (hwidth : width ≠ .word) (hmem : Touches inMemory width.bytes addr) :
    Serves ⟨width, addr⟩ (accessed ⟨width, addr⟩ inMemory (throw (.unmapped addr)) (pure v)) s :=
  accessed_serves hmem (quiet_throw _) (quiet_pure v) (fun h => absurd h hwidth)
    (fun _ => ⟨⟨_, rfl⟩, _, rfl⟩)

theorem quiet_handleStoreIo (addr value : Word) : Quiet (handleStoreIo addr value) := by
  unfold handleStoreIo
  split
  · split
    · exact fun _ => ⟨rfl, rfl⟩
    · exact quiet_pure ()
  · exact quiet_throw _

/-- The assertion leaves nothing for the mask to clear. -/
theorem masked_eq (addr m : Word) (f : Word → Sim α) (s : Machine) :
    (check (addr &&& m == 0) >>= fun _ => f (addr &&& ~~~ m)) s =
      (check (addr &&& m == 0) >>= fun _ => f addr) s := by
  by_cases h : addr &&& m = 0
  · rw [and_not_eq h]
  · have hfalse : (addr &&& m == 0) = false := by simpa using h
    rw [hfalse]
    rfl

theorem handleStoreVal_eq :
    handleStoreVal r val offset s =
      accessed ⟨.word, s.cpu.regs r + offset⟩ (storeMemU32 (s.cpu.regs r + offset) val)
        (handleStoreIo (s.cpu.regs r + offset) val)
        (throw (.unmapped (s.cpu.regs r + offset))) s := by
  exact masked_eq (s.cpu.regs r + offset) 3
    (fun addr => if addr.toNat < memsize then storeMemU32 addr val
      else if isIo addr then handleStoreIo addr val else throw (.unmapped addr))
    { s with accesses := s.accesses ++ [⟨.word, s.cpu.regs r + offset⟩] }

theorem handleRead_eq :
    handleRead r offset s =
      accessed ⟨.word, s.cpu.regs r + offset⟩ (readMemU32 (s.cpu.regs r + offset)) (pure 0)
        (throw (.unmapped (s.cpu.regs r + offset))) s := by
  exact masked_eq (s.cpu.regs r + offset) 3
    (fun addr => if addr.toNat < memsize then readMemU32 addr
      else if isIo addr then handleReadIo addr else throw (.unmapped addr))
    { s with accesses := s.accesses ++ [⟨.word, s.cpu.regs r + offset⟩] }

theorem handleStoreShort_eq :
    handleStoreShort r r' offset s =
      accessed ⟨.short, s.cpu.regs r + offset⟩
        (storeMemU16 (s.cpu.regs r + offset) (s.cpu.regs r'))
        (throw (.unmapped (s.cpu.regs r + offset))) (pure ()) s := by
  exact masked_eq (s.cpu.regs r + offset) 1
    (fun addr => if addr.toNat < memsize then storeMemU16 addr (s.cpu.regs r')
      else if isIo addr then throw (.unmapped addr) else pure ())
    { s with accesses := s.accesses ++ [⟨.short, s.cpu.regs r + offset⟩] }

theorem handleReadShort_eq :
    handleReadShort r offset s =
      accessed ⟨.short, s.cpu.regs r + offset⟩ (readMemU16 (s.cpu.regs r + offset))
        (throw (.unmapped (s.cpu.regs r + offset))) (pure 0) s := by
  exact masked_eq (s.cpu.regs r + offset) 1
    (fun addr => if addr.toNat < memsize then readMemU16 addr
      else if isIo addr then throw (.unmapped addr) else pure 0)
    { s with accesses := s.accesses ++ [⟨.short, s.cpu.regs r + offset⟩] }

theorem handleStoreByte_eq :
    handleStoreByte r r' offset s =
      accessed ⟨.byte, s.cpu.regs r + offset⟩ (storeMemU8 (s.cpu.regs r + offset) (s.cpu.regs r'))
        (throw (.unmapped (s.cpu.regs r + offset))) (pure ()) s :=
  rfl

theorem handleReadByte_eq :
    handleReadByte r offset s =
      accessed ⟨.byte, s.cpu.regs r + offset⟩ (readMemU8 (s.cpu.regs r + offset))
        (throw (.unmapped (s.cpu.regs r + offset))) (pure 0) s :=
  rfl

theorem handleStoreVal_serves :
    Serves ⟨.word, s.cpu.regs r + offset⟩ (handleStoreVal r val offset) s :=
  (word_serves (touches_storeMemU32 _ val) (quiet_handleStoreIo _ val)).congr handleStoreVal_eq

theorem handleStore_serves :
    Serves ⟨.word, s.cpu.regs r + offset⟩ (handleStore r r' offset) s :=
  handleStoreVal_serves.congr rfl

theorem handleRead_serves : Serves ⟨.word, s.cpu.regs r + offset⟩ (handleRead r offset) s :=
  (word_serves (touches_readMemU32 _) (quiet_pure 0)).congr handleRead_eq

theorem handleStoreShort_serves :
    Serves ⟨.short, s.cpu.regs r + offset⟩ (handleStoreShort r r' offset) s :=
  (narrow_serves () (by decide) (touches_storeMemU16 _ (s.cpu.regs r'))).congr handleStoreShort_eq

theorem handleReadShort_serves :
    Serves ⟨.short, s.cpu.regs r + offset⟩ (handleReadShort r offset) s :=
  (narrow_serves 0 (by decide) (touches_readMemU16 _)).congr handleReadShort_eq

theorem handleStoreByte_serves :
    Serves ⟨.byte, s.cpu.regs r + offset⟩ (handleStoreByte r r' offset) s :=
  (narrow_serves () (by decide) (touches_storeMemU8 _ (s.cpu.regs r'))).congr handleStoreByte_eq

theorem handleReadByte_serves :
    Serves ⟨.byte, s.cpu.regs r + offset⟩ (handleReadByte r offset) s :=
  (narrow_serves 0 (by decide) (touches_readMemU8 _)).congr handleReadByte_eq

end Handlers

/-! ## A round -/

section Round

variable {undefined : Word} {cpu : Cpu} {o : Opcode}

/-- An instruction makes the access it asks for, or none. -/
theorem handler_serves {a : Access} {s : Machine} (h : asks s.cpu o = some a) :
    Serves a (handler o undefined) s := by
  unfold asks at h
  unfold handler
  cases hopv : o.opv <;> rw [hopv] at h <;> cases h
  case stw => exact handleStore_serves
  case sts => exact handleStoreShort_serves
  case stb => exact handleStoreByte_serves
  case stspr => exact handleStoreVal_serves.congr rfl
  case ldw => exact handleRead_serves.bind_modify _
  case lds => exact handleReadShort_serves.bind_modify _
  case ldb => exact handleReadByte_serves.bind_modify _
  case ldspr => exact handleRead_serves.bind_modify _
  case ldbp => exact handleReadByte_serves.bind_modify _

theorem handler_quiet (h : asks cpu o = none) : Quiet (handler o undefined) := by
  unfold asks at h
  unfold handler
  cases hopv : o.opv <;> rw [hopv] at h
  case nop => exact quiet_pure ()
  case addc | subb | stwp | stsp | stbp | stsprp | ldwp | ldsp | ldsprp =>
    exact quiet_unhandledOp o
  case stw | sts | stb | stspr | ldw | lds | ldb | ldspr | ldbp => cases h
  all_goals exact quiet_modifyCpu _

theorem Access.not_of_unchecked {a : Access} (h : ¬ a.Checked) : ¬ a.Mapped ∧ ¬ a.Io := by
  unfold Access.Checked at h
  push Not at h
  obtain ⟨hwidth, -, hge, hio⟩ := h
  refine ⟨?_, fun hword => hwidth hword.1⟩
  intro hmapped
  have : a.addr.toNat + a.width.bytes ≤ memsize := hmapped
  have hpos : 0 < a.width.bytes := by cases a.width <;> decide
  omega

def fetched (cpu : Cpu) : Machine := ⟨beginOpcode cpu, [cpu.pc, cpu.pc + 1], [], []⟩

theorem round_eq : round undefined cpu =
    match decodeSingleOpcode cpu (instruction cpu) with
    | some o => (handler o undefined >>= fun _ => modifyCpu (endOpcode o)) (fetched cpu)
    | none =>
        .error (.invalidOpcode (instruction cpu) cpu.pc) ⟨cpu, [cpu.pc, cpu.pc + 1], [], []⟩ := by
  show (match decodeSingleOpcode cpu (instruction cpu) with
    | some o => executeSingleOpcodeFjp o undefined
    | none => throw (.invalidOpcode (instruction cpu) cpu.pc) : Sim Unit)
      ⟨cpu, [cpu.pc, cpu.pc + 1], [], []⟩ = _
  cases decodeSingleOpcode cpu (instruction cpu) <;> rfl

theorem sameGuest_beginOpcode (cpu : Cpu) : SameGuest cpu (beginOpcode cpu) :=
  ⟨rfl, rfl, rfl, ⟨rfl, rfl, rfl⟩, ⟨rfl, rfl⟩⟩

/-- The two bytes of the instruction. -/
theorem fetch_iff : (∀ i ∈ [cpu.pc, cpu.pc + 1], i.toNat < memsize) ↔
    cpu.pc.toNat + 1 < memsize := by
  have hsize : memsize = 16384 := rfl
  have hlt := cpu.pc.isLt
  constructor
  · intro h
    have h₀ := h cpu.pc (by simp)
    have h₁ := h (cpu.pc + 1) (by simp)
    have hadd : (cpu.pc + 1).toNat = cpu.pc.toNat + 1 := by
      rw [BitVec.toNat_add]
      exact Nat.mod_eq_of_lt (by show cpu.pc.toNat + 1 < 2 ^ 32; omega)
    omega
  · intro h i hi
    rcases List.mem_pair.mp hi with rfl | rfl
    · omega
    · exact add_lt_memsize h

/-- A round with an access. -/
theorem serves_contained_iff {a : Access} {x : Sim Unit} (h : Serves a x (fetched cpu)) :
    Contained cpu (x (fetched cpu)) ↔ cpu.pc.toNat + 1 < memsize ∧ a.Checked := by
  rw [← fetch_iff]
  constructor
  · intro hc
    refine ⟨fun i hi => hc.touched i (h.kept i hi), ?_⟩
    by_contra hno
    obtain ⟨hmapped, hio⟩ := Access.not_of_unchecked hno
    obtain ⟨⟨why, s', herror⟩, -⟩ := hc.reported a (by rw [h.accesses]; simp) hmapped hio
    obtain ⟨v, s'', hok⟩ := h.passes hno
    rw [hok] at herror
    cases herror
  · rintro ⟨hfetch, hchecked⟩
    constructor
    case touched =>
      intro i hi
      rcases h.touched i hi with hi | hi
      · exact hfetch i hi
      · exact hi
    case reported =>
      intro b hb hmapped hio
      rw [h.accesses] at hb
      obtain rfl : b = a := by simpa [fetched] using hb
      obtain ⟨why, s', herror, hcpu⟩ := h.fails hmapped hio hchecked
      rw [herror]
      refine ⟨⟨why, s', rfl⟩, ?_⟩
      show SameGuest cpu s'.cpu
      rw [hcpu]
      exact sameGuest_beginOpcode cpu

/-- A round without an access. -/
theorem quiet_contained_iff {r : Result Abort Machine Unit}
    (htouched : (Result.machine r).touched = [cpu.pc, cpu.pc + 1])
    (haccesses : (Result.machine r).accesses = []) :
    Contained cpu r ↔ cpu.pc.toNat + 1 < memsize := by
  rw [← fetch_iff]
  constructor
  · intro hc
    rw [← htouched]
    exact hc.touched
  · intro hfetch
    constructor
    case touched => rwa [htouched]
    case reported =>
      rw [haccesses]
      intro a ha
      cases ha

/-- A round keeps to the guest if and only if it starts where it can. -/
theorem contained_iff : Contained cpu (round undefined cpu) ↔ InGuest cpu := by
  have hguest : InGuest cpu ↔ cpu.pc.toNat + 1 < memsize ∧
      ∀ o ∈ decodeSingleOpcode cpu (instruction cpu), ∀ a ∈ asks cpu o, a.Checked :=
    ⟨fun h => ⟨h.fetch, h.access⟩, fun h => ⟨h.1, h.2⟩⟩
  rw [hguest, round_eq]
  cases hdecode : decodeSingleOpcode cpu (instruction cpu) with
  | none =>
    rw [quiet_contained_iff rfl rfl]
    simp
  | some o =>
    cases hasks : asks cpu o with
    | none =>
      obtain ⟨htouched, haccesses⟩ :=
        bind_modify_log (handler o undefined) (fun _ => endOpcode o) (fetched cpu)
      obtain ⟨htouched', haccesses'⟩ := handler_quiet hasks (fetched cpu)
      rw [quiet_contained_iff (htouched.trans htouched') (haccesses.trans haccesses')]
      simp [hasks]
    | some a =>
      have hserves : Serves a (handler o undefined) (fetched cpu) := handler_serves hasks
      rw [serves_contained_iff (hserves.bind_modify fun _ => endOpcode o)]
      simp [hasks]

end Round

/-- In every run every round keeps to the guest if and only if every round starts where it can. -/
theorem execute_contained_iff (undefined : Nat → Word) (cpu : Cpu) (n : Nat) :
    (∀ k < n, ∀ c ∈ execute undefined cpu k, Contained c (round (undefined k) c)) ↔
      ∀ k < n, ∀ c ∈ execute undefined cpu k, InGuest c := by
  constructor
  · intro h k hk c hc
    exact contained_iff.mp (h k hk c hc)
  · intro h k hk c hc
    exact contained_iff.mpr (h k hk c hc)

/-- A guest whose first instruction loads a byte from right behind its memory. -/
def loadsBehind : Cpu where
  memory i := if i = 0 then 0x42 else if i = 1 then 0x21 else 0
  regs r := if r = 1 then 0x4000 else 0
  npc := 0
  spr _ := 0
  zero := false
  carry := false
  sign := false
  imm := 0
  imflag := false
  branchNext := -1
  resetImmed := false

/-- The load goes on with 0 for its word. -/
theorem loadsBehind_unreported :
    (∃ m, round 0 loadsBehind = .ok () m ∧ m.accesses = [⟨.byte, 0x4000⟩] ∧ m.cpu.regs 2 = 0) ∧
      ¬ ∀ k < 1, ∀ c ∈ execute (fun _ => 0) loadsBehind k, Contained c (round 0 c) := by
  have hrun : ∃ m, round 0 loadsBehind = .ok () m ∧ m.accesses = [⟨.byte, 0x4000⟩] ∧
      m.cpu.regs 2 = 0 := ⟨_, rfl, by decide, by decide⟩
  refine ⟨hrun, fun h => ?_⟩
  obtain ⟨m, hm, haccesses, -⟩ := hrun
  have hcontained := h 0 (by decide) loadsBehind rfl
  rw [hm] at hcontained
  have hmapped : ¬ (⟨.byte, 0x4000⟩ : Access).Mapped := by
    unfold Access.Mapped
    decide
  have hio : ¬ (⟨.byte, 0x4000⟩ : Access).Io := fun h => by cases h.1
  obtain ⟨⟨why, m', herror⟩, -⟩ :=
    hcontained.reported ⟨.byte, 0x4000⟩ (by
      show _ ∈ m.accesses
      rw [haccesses]
      exact List.mem_singleton_self _) hmapped hio
  cases herror

end Softsim

end Xtc
