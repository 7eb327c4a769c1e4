import Mathlib.Tactic

/-!
# Dram — a synchronous DRAM chip

Banks of rows of columns.  A row is opened before its columns are read or written and closed before
another row of the bank, or before a refresh; what is read of a row is on the data pins two clocks
after the command.  Bursts have one word.  The chip also counts the clocks since the commands whose
distance its data sheet bounds: a command is `Permitted` if it comes in a state that takes it, and
not too soon.
-/

namespace Dram

/-- Commands over banks `β`, rows `ρ`, columns `γ` and mode words `μ`. -/
inductive Command (β ρ γ μ : Type*)
  | nop
  | active (bank : β) (row : ρ)
  | read (bank : β) (column : γ)
  | write (bank : β) (column : γ)
  -- a read or a write that closes its row; never permitted here
  | autoPrecharge
  | precharge (bank : β)
  | prechargeAll
  | refresh
  | mode (word : μ)
  deriving DecidableEq

/-- The distances of the data sheet, in clocks. -/
structure Timing where
  tRC : Nat
  tRP : Nat
  tRCD : Nat
  tRRD : Nat
  tWR : Nat
  tMRD : Nat
  tRAS : Nat

/-- A chip of words `ω`, which `κ` masks. -/
structure Chip (β ρ γ μ ω κ : Type*) where
  mode : μ
  mem : β → ρ → γ → ω
  precharged : β → Bool
  row : β → ρ
  -- the read whose row has been addressed, with its mask
  reading : Option (β × γ)
  mask : κ
  -- what the chip drives
  dq : Option (κ × ω)
  -- clocks since the last refresh, mode word and activation
  rc : Nat
  mrd : Nat
  rrd : Nat
  -- clocks since a bank was closed, opened and written
  rp : β → Nat
  ras : β → Nat
  wr : β → Nat

variable {β ρ γ μ ω κ : Type*} [DecidableEq β] [DecidableEq ρ] [DecidableEq γ]

namespace Chip

section Clock

variable (merge : κ → ω → ω → ω) (cmd : Command β ρ γ μ) (mask : κ) (dq : ω)
  (c : Chip β ρ γ μ ω κ)

def nextMem (b : β) (r : ρ) (k : γ) : ω :=
  match cmd with
  | .write bank column =>
    if b = bank ∧ r = c.row bank ∧ k = column then merge mask dq (c.mem b r k) else c.mem b r k
  | _ => c.mem b r k

def nextPrecharged (b : β) : Bool :=
  match cmd with
  | .active bank _ => c.precharged b && b != bank
  | .precharge bank => c.precharged b || b == bank
  | .prechargeAll => true
  | _ => c.precharged b

/-- A bank that is open keeps its row. -/
def nextRow (b : β) : ρ :=
  match cmd with
  | .active bank row => if b = bank ∧ c.precharged b = true then row else c.row b
  | _ => c.row b

def nextDq : Option (κ × ω) :=
  match cmd, c.reading with
  | .write .., _ => none
  | _, none => none
  | _, some (bank, column) => some (c.mask, c.mem bank (c.row bank) column)

/-- One edge of the clock, with the data pins at `dq`. -/
def clock : Chip β ρ γ μ ω κ where
  mode := match cmd with | .mode word => word | _ => c.mode
  mem := c.nextMem merge cmd mask dq
  precharged := c.nextPrecharged cmd
  row := c.nextRow cmd
  reading := match cmd with | .read bank column => some (bank, column) | _ => none
  mask := mask
  dq := c.nextDq cmd
  rc := match cmd with | .refresh => 1 | _ => c.rc + 1
  mrd := match cmd with | .mode _ => 1 | _ => c.mrd + 1
  rrd := match cmd with | .active .. => 1 | _ => c.rrd + 1
  rp b := match cmd with
    | .precharge bank => if b = bank then 1 else c.rp b + 1
    | .prechargeAll => 1
    | _ => c.rp b + 1
  ras b := match cmd with
    | .active bank _ => if b = bank then 1 else c.ras b + 1
    | _ => c.ras b + 1
  wr b := match cmd with
    | .write bank _ => if b = bank then 1 else c.wr b + 1
    | _ => c.wr b + 1

end Clock

/-- The chip takes the command in its state, and not too soon; `word` is the mode in use. -/
def Permitted (t : Timing) (word : μ) (c : Chip β ρ γ μ ω κ) : Command β ρ γ μ → Prop
  | .nop => True
  | .autoPrecharge => False
  | .refresh | .mode _ =>
    (∀ b, c.precharged b = true) ∧ (∀ b, t.tRP ≤ c.rp b) ∧ t.tRC ≤ c.rc ∧ t.tMRD ≤ c.mrd
  | .active bank _ =>
    c.precharged bank = true ∧ t.tRP ≤ c.rp bank ∧ t.tRC ≤ c.rc ∧ t.tMRD ≤ c.mrd ∧ t.tRRD ≤ c.rrd
  | .read bank _ | .write bank _ =>
    c.mode = word ∧ c.precharged bank = false ∧ t.tRCD ≤ c.ras bank
  | .precharge bank => t.tWR ≤ c.wr bank
  | .prechargeAll => ∀ b, t.tWR ≤ c.wr b

def Restored (t : Timing) (c : Chip β ρ γ μ ω κ) : Command β ρ γ μ → Prop
  | .precharge bank => c.precharged bank = false → t.tRAS ≤ c.ras bank
  | .prechargeAll => ∀ b, c.precharged b = false → t.tRAS ≤ c.ras b
  | _ => True

/-! Only the counters and the row of its bank tell what a chip permits. -/

def Open (bank : β) (row : ρ) (c : Chip β ρ γ μ ω κ) : Prop :=
  (∀ b, c.precharged b = (b != bank)) ∧ c.row bank = row

def Closed (c : Chip β ρ γ μ ω κ) : Prop := ∀ b, c.precharged b = true

section Lemmas

variable {merge : κ → ω → ω → ω} {mask : κ} {dq : ω} {c : Chip β ρ γ μ ω κ} {bank : β} {row : ρ}

theorem Closed.active (h : c.Closed) :
    (c.clock merge (.active bank row) mask dq).Open bank row := by
  refine ⟨fun b => ?_, ?_⟩
  · simp [clock, nextPrecharged, h b]
  · simp [clock, nextRow, h bank]

theorem closed_prechargeAll : (c.clock merge .prechargeAll mask dq).Closed := fun _ => rfl

theorem Closed.nop (h : c.Closed) : (c.clock merge .nop mask dq).Closed := h

theorem Closed.refresh (h : c.Closed) : (c.clock merge .refresh mask dq).Closed := h

theorem Closed.mode (h : c.Closed) (word : μ) : (c.clock merge (.mode word) mask dq).Closed := h

end Lemmas

end Chip

end Dram
