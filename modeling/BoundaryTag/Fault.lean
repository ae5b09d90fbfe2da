import BoundaryTag.Error
import BoundaryTag.Size

namespace BoundaryTag

/-- A pointer that cannot be a live one, in the order in which a heap looks for it. -/
inductive Misuse where
  | misaligned (addr : Nat)
  | foreign (addr : Nat)
  | corruptHeader (addr : Nat)
  | mismatchedTags (addr : Nat)
  | notAllocated (addr : Nat)
  deriving DecidableEq, Repr

inductive Fault where
  | misuse (cause : Misuse)
  | overflow
  | underflow
  | unalignedTag (size : Nat)
  | oversizedTag (size : Nat)
  | discontiguous (expected actual : Nat)
  | unreadable (addr : Nat)
  deriving DecidableEq, Repr

/-- Why an operation did not finish: a failure that its caller can handle, or a fault. -/
inductive Stop (ε : Type) where
  | failed (cause : ε)
  | fault (fault : Fault)
  deriving DecidableEq, Repr

def Stop.map {ε δ : Type} (onFailure : ε → δ) (onFault : Fault → Fault) : Stop ε → Stop δ
  | failed cause => failed (onFailure cause)
  | fault f => fault (onFault f)

def Misuse.message : Misuse → String
  | misaligned addr => s!"pointer {Hex.ofAddress addr} is not aligned to 8 bytes"
  | foreign addr => s!"pointer {Hex.ofAddress addr} does not belong to this heap"
  | corruptHeader addr => s!"pointer {Hex.ofAddress addr} has a corrupted header"
  | mismatchedTags addr => s!"pointer {Hex.ofAddress addr} has mismatched boundary tags"
  | notAllocated addr => s!"pointer {Hex.ofAddress addr} is not allocated (double free?)"

def Fault.message : Fault → String
  | misuse cause => cause.message
  | overflow => "attempt to add with overflow"
  | underflow => "attempt to subtract with overflow"
  | unalignedTag size => s!"block size {size} is not aligned"
  | oversizedTag size => s!"block size {size} overflows a tag"
  | discontiguous expected actual =>
    s!"growth at {Hex.ofAddress actual} does not follow {Hex.ofAddress expected}"
  | unreadable addr => s!"no tag word of the heap at {Hex.ofAddress addr}"

def Misuse.relativeTo (base : Nat) : Misuse → Misuse
  | misaligned addr => misaligned (addr - base)
  | foreign addr => foreign (addr - base)
  | corruptHeader addr => corruptHeader (addr - base)
  | mismatchedTags addr => mismatchedTags (addr - base)
  | notAllocated addr => notAllocated (addr - base)

def Fault.relativeTo (base : Nat) : Fault → Fault
  | misuse cause => misuse (cause.relativeTo base)
  | discontiguous expected actual => discontiguous (expected - base) (actual - base)
  | unreadable addr => unreadable (addr - base)
  | fault => fault

def checkedAdd (a b : Nat) : Except Fault Nat :=
  if a + b < addressLimit then .ok (a + b) else .error .overflow

def checkedSub (a b : Nat) : Except Fault Nat :=
  if b ≤ a then .ok (a - b) else .error .underflow

end BoundaryTag
