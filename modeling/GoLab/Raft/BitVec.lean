/-!
# The bit vector of the commit counter (`bitvec.go`)

A packed vector of `cap` bits with the number of set bits kept beside it.  An
access outside `bits` is `none`, the run-time panic.
-/

namespace GoLab.Raft

structure BitVec where
  cap : Nat
  count : Int
  bits : List UInt8
  deriving DecidableEq, Repr

namespace BitVec

/-- `newBitVec`. -/
def new (cap : Nat) : BitVec where
  cap
  count := 0
  bits := List.replicate (cap / 8 + if cap % 8 ≠ 0 then 1 else 0) 0

/-- `uint8(1) << off`. -/
def mask (idx : Nat) : UInt8 :=
  1 <<< UInt8.ofNat (idx % 8)

/-- `Set`: the second component is true if the bit was not set before. -/
def set (bv : BitVec) (idx : Nat) : Option (BitVec × Bool) := do
  let num ← bv.bits[idx / 8]?
  if num &&& mask idx ≠ 0 then
    return (bv, false)
  else
    return ({ bv with
      bits := bv.bits.set (idx / 8) (num ||| mask idx)
      count := bv.count + 1 }, true)

/-- `Unset`: the second component is true if the bit was set before. -/
def unset (bv : BitVec) (idx : Nat) : Option (BitVec × Bool) := do
  let num ← bv.bits[idx / 8]?
  if num &&& mask idx = 0 then
    return (bv, false)
  else
    return ({ bv with
      bits := bv.bits.set (idx / 8) (num ^^^ mask idx)
      count := bv.count - 1 }, true)

/-- `At`. -/
def get (bv : BitVec) (idx : Nat) : Option Bool := do
  let num ← bv.bits[idx / 8]?
  return decide (num &&& mask idx ≠ 0)

end BitVec

end GoLab.Raft
