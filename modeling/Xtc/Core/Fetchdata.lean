import Xtc.Core.Package

/-!
# Fetchdata — operand fetch `fetchdata.vhd` and the register bank

The stage holds the instruction in front of execute and decides which of its operands is forwarded
from the instruction ahead of it.  The register bank reads through a write of the same clock, and
reads zero at the registers whose four low bits are zero.
-/

namespace Xtc

namespace Fetchdata

structure Control where
  freeze : Bool
  flush : Bool
  refetch : Bool
  executed : Bool
  clrhold : Bool

section

variable (c : Control) (dr : DecodeRegs) (fdr : FetchdataRegs)

def writesAlu : Bool := dr.regSource == .alu && dr.regwe

/-- `fdw.alufwa`, `fdw.alufwb`.  The source compares the five-bit `fdr.dreg` with the four-bit
`"0000"`, which is always unequal, so register zero is forwarded too. -/
def forwards (sra : RegAddress) : Bool := fdr.alu && sra == fdr.dreg && c.executed

def next : FetchdataRegs where
  drq :=
    if c.freeze then fdr.drq
    else { dr with valid := dr.valid && !c.flush && !c.refetch }
  rd1q := if c.freeze then fdr.rd1q else dr.rd1
  rd2q := if c.freeze then fdr.rd2q else dr.rd2
  alu := if c.freeze then fdr.alu else writesAlu dr && !c.flush
  waiting := c.refetch && !c.freeze
  alufwa := if c.freeze then fdr.alufwa else forwards c fdr dr.sra1
  alufwb := if c.freeze then fdr.alufwb else forwards c fdr dr.sra2
  hold :=
    if c.flush || c.refetch then false
    else if c.clrhold then dr.valid && dr.ismult
    else if c.freeze then fdr.hold
    else if dr.valid then dr.ismult
    else fdr.hold
  dreg := if !c.freeze && writesAlu dr then dr.dreg else fdr.dreg

end

structure Reset (fdr : FetchdataRegs) : Prop where
  valid : fdr.drq.valid = false
  hold : fdr.hold = false
  alu : fdr.alu = false
  alufwa : fdr.alufwa = false
  alufwb : fdr.alufwb = false
  waiting : fdr.waiting = false
  rd1q : fdr.rd1q = false
  rd2q : fdr.rd2q = false

end Fetchdata

/-! ## Register bank -/

structure RegWrite where
  we : Bool
  addr : RegAddress
  data : Word

namespace Regbank

def isZero (r : RegAddress) : Bool := r.extractLsb 3 0 == 0#4

def write (w : RegWrite) (ram : RegAddress → Word) : RegAddress → Word :=
  fun r => if w.we && r == w.addr then w.data else ram r

/-- A read port after one clock: `rb1_we` makes the port write what it is about to read. -/
def read (w : RegWrite) (ram : RegAddress → Word) (en : Bool) (addr : RegAddress) (rd : Word) :
    Word :=
  if en then (if isZero addr then 0 else write w ram addr) else rd

end Regbank

end Xtc
