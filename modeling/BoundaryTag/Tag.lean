import BoundaryTag.Fault

namespace BoundaryTag

/-- A block size and a flag in one word. Tags are equal when their words are, stray bits included. -/
structure Tag where
  word : UInt32
  deriving DecidableEq, Repr

namespace Tag

def size (tag : Tag) : Nat := tag.word.toNat / unitSize * unitSize

def isAllocated (tag : Tag) : Bool := tag.word.toNat % 2 == 1

/-- Holds `size` as it is where `size` is a multiple of `unitSize` below `tagLimit`. -/
def pack (size : Nat) (allocated : Bool) : Tag := ⟨UInt32.ofNat (size + allocated.toNat)⟩

def packed (size : Nat) (allocated : Bool) : Except Fault Tag :=
  if size % unitSize ≠ 0 then .error (.unalignedTag size)
  else if tagLimit ≤ size then .error (.oversizedTag size)
  else .ok (pack size allocated)

theorem size_pack (size : Nat) (allocated : Bool) (aligned : size % unitSize = 0) (fits : size < tagLimit) :
    (pack size allocated).size = size := by
  simp only [Tag.size, pack, UInt32.toNat_ofNat', unitSize, tagLimit, UInt32.size] at *
  cases allocated <;> simp only [Bool.toNat_false, Bool.toNat_true] <;> omega

theorem isAllocated_pack (size : Nat) (allocated : Bool) (aligned : size % unitSize = 0) :
    (pack size allocated).isAllocated = allocated := by
  simp only [isAllocated, pack, UInt32.toNat_ofNat', unitSize] at *
  cases allocated <;> simp only [Bool.toNat_false, Bool.toNat_true, beq_iff_eq, beq_eq_false_iff_ne] <;> omega

theorem packed_eq_ok (size : Nat) (allocated : Bool) (aligned : size % unitSize = 0) (fits : size < tagLimit) :
    packed size allocated = .ok (pack size allocated) := by
  simp only [packed, aligned, ne_eq, not_true_eq_false, if_false, Nat.not_le.mpr fits]

theorem size_mod (tag : Tag) : tag.size % unitSize = 0 := Nat.mul_mod_left _ _

end Tag

end BoundaryTag
