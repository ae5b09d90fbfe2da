import BoundaryTag.Size
import BoundaryTag.Source.Basic

namespace BoundaryTag

abbrev regionAlign : Nat := 16

structure Region where
  base : Nat
  capacity : Nat
  used : Nat := 0
  used_le : used ≤ capacity := by omega
  deriving DecidableEq, Repr

namespace Region

def remaining (region : Region) : Nat := region.capacity - region.used

def fresh (base capacity : Nat) : Region := { base, capacity }

/-- A fresh region where the system allocator has found room for one. Its capacity, rounded up to `regionAlign`, is
    positive and within half of `addressLimit`. -/
def allocate (capacity : Nat) (room : Option Nat) : Except AllocError Region :=
  if capacity = 0 ∨ addressLimit / 2 - regionAlign < capacity then .error (.invalidCapacity capacity)
  else
    match room with
    | some base => .ok (fresh base capacity)
    | none => .error (.outOfMemory capacity)

def grow (region : Region) (bytes : Nat) : Grant Region :=
  if fits : bytes ≤ region.remaining then
    { answer := .ok (region.base + region.used)
      source := {
        region with
        used := region.used + bytes
        used_le := Nat.add_le_of_le_sub' region.used_le fits } }
  else { answer := .error (.outOfMemory bytes), source := region }

instance : Source Region := ⟨grow⟩

end Region

end BoundaryTag
