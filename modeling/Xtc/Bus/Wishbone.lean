import Xtc.Core.Package
import Xtc.Lib.Exchange
import Xtc.Lib.Run

/-!
# Wishbone — the records of `wishbonepkg.vhd`

The two directions of the pipelined bus, without `int` and `rty`, which the units of this
directory pass over, and the counter of requests that its masters share.
-/

namespace Xtc

/-- The record `wb_mosi_type`. -/
structure Mosi where
  dat : Word
  adr : Word
  tag : Word
  cyc : Bool
  stb : Bool
  sel : BitVec 4
  cti : BitVec 3
  bte : BitVec 2
  we : Bool
  deriving DecidableEq

/-- The record `wb_miso_type`. -/
structure Miso where
  ack : Bool
  dat : Word
  tag : Word
  err : Bool
  stall : Bool
  deriving DecidableEq

/-- What a slave takes of a request. -/
structure WbRequest where
  dat : Word
  adr : Word
  tag : Word
  sel : BitVec 4
  cti : BitVec 3
  bte : BitVec 2
  we : Bool
  deriving DecidableEq

/-- What a master takes of an answer. -/
structure WbAnswer where
  dat : Word
  tag : Word
  err : Bool
  deriving DecidableEq

namespace Mosi

def idle : Mosi := ⟨0, 0, 0, false, false, 0, 0, 0, false⟩

def reading (adr : Word) : Mosi := { idle with adr := adr, cyc := true, stb := true }

def holding : Mosi := { idle with cyc := true }

def request (m : Mosi) : WbRequest := ⟨m.dat, m.adr, m.tag, m.sel, m.cti, m.bte, m.we⟩

def taken (m : Mosi) (stall : Bool) : Option WbRequest :=
  if m.cyc && m.stb && !stall then some m.request else none

end Mosi

namespace Miso

def idle : Miso := ⟨false, 0, 0, false, false⟩

def answering (dat : Word) : Miso := { idle with ack := true, dat := dat }

def responds (s : Miso) : Bool := s.ack || s.err

def answer (s : Miso) : Option WbAnswer :=
  if s.responds then some ⟨s.dat, s.tag, s.err⟩ else none

theorem answer_isSome (s : Miso) : s.answer.isSome = s.responds := by
  unfold answer
  cases s.responds <;> rfl

end Miso

/-! ## `reqcnt` -/

/-- A component with the ports of `reqcnt`, over its registers `ρ`.  The units instantiate it, but
it is not part of the sources. -/
structure Reqcnt (ρ : Type) where
  reset : ρ
  next : (stb cyc stall ack : Bool) → ρ → ρ
  req : ρ → Bool
  lastreq : (stb cyc stall ack : Bool) → ρ → Bool

namespace Reqcnt

/-- What the units expect of `reqcnt`: it counts the requests that were taken and not answered, as
long as no answer comes without a request.  `lastreq` is up when the only one is answered. -/
structure Counts {ρ : Type} (c : Reqcnt ρ) (count : ρ → Nat) : Prop where
  reset : count c.reset = 0
  next : ∀ stb cyc stall ack r, (ack = true → 0 < count r + (stb && cyc && !stall).toNat) →
    count (c.next stb cyc stall ack r) =
      count r + (stb && cyc && !stall).toNat - ack.toNat
  req : ∀ r, c.req r = (count r != 0)
  lastreq : ∀ stb cyc stall ack r, c.lastreq stb cyc stall ack r =
    (ack && count r + (stb && cyc && !stall).toNat == 1)

def counter : Reqcnt Nat where
  reset := 0
  next stb cyc stall ack n := n + (stb && cyc && !stall).toNat - ack.toNat
  req n := n != 0
  lastreq stb cyc stall ack n := ack && n + (stb && cyc && !stall).toNat == 1

theorem counter_counts : counter.Counts id where
  reset := rfl
  next _ _ _ _ _ _ := rfl
  req _ := rfl
  lastreq _ _ _ _ _ := rfl

end Reqcnt

end Xtc
