import Xtc.Core.Package

/-!
# Alu — the arithmetic unit `alu_a.vhd` and its shifter `shift.vhd`

The multiplier is a separate component with a latency of its own; its outputs come in as inputs.
-/

namespace Xtc

/-- One stage of the barrel shifter: the low `w` bits come from `k` places up, the rest stay. -/
def shiftStage (taken : Bool) (w k : Nat) (i : BitVec 64) : BitVec 64 :=
  let low := BitVec.allOnes 64 >>> (64 - w)
  if taken then (i &&& ~~~low) ||| ((i >>> k) &&& low) else i

def shifter (a : Word) (b : BitVec 5) (left arith : Bool) : Word :=
  let i : BitVec 64 :=
    if left then (0#1 ++ a) ++ 0#31
    else if arith then (if a.getLsbD 31 then BitVec.allOnes 32 else 0#32) ++ a
    else 0#32 ++ a
  let cnt := if left then ~~~b else b
  let i := shiftStage (cnt.getLsbD 4) 48 16 i
  let i := shiftStage (cnt.getLsbD 3) 40 8 i
  let i := shiftStage (cnt.getLsbD 2) 36 4 i
  let i := shiftStage (cnt.getLsbD 1) 34 2 i
  let i := shiftStage (cnt.getLsbD 0) 32 1 i
  i.extractLsb 31 0

/-- What the unit drives apart from the multiplier's own outputs.  `ovf` is not driven. -/
structure AluOutput where
  o : Word
  co : Bool
  zero : Bool
  sign : Bool

/-- `multR` is the multiplier's low word and `unknown` the value of an operation that is not
listed. -/
def alu (op : AluOp) (a b : Word) (ci cen : Bool) (multR unknown : Word) : AluOutput :=
  let a' : BitVec 33 := 0#1 ++ a
  let b' : BitVec 33 := 0#1 ++ b
  let carryext : BitVec 33 := if ci && cen then 1 else 0
  let addR := a' + b' + carryext
  let subR := a' - b' - carryext
  { o :=
      match op with
      | .add => addR.extractLsb 31 0
      | .sub => subR.extractLsb 31 0
      | .and => a &&& b
      | .or => a ||| b
      | .xor => a ^^^ b
      | .sextb => (a.extractLsb 7 0).signExtend 32
      | .sexts => (a.extractLsb 15 0).signExtend 32
      | .shl => shifter a (b.extractLsb 4 0) true false
      | .sra => shifter a (b.extractLsb 4 0) false true
      | .srl => shifter a (b.extractLsb 4 0) false false
      | .mul => multR
      | .addc | .subb | .addri | .cmp | .not => unknown
    co := subR.getLsbD 32
    zero := subR.extractLsb 31 0 == 0
    sign := subR.getLsbD 31 }

end Xtc
