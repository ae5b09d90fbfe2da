namespace BoundaryTag

abbrev wordSize : Nat := 4

/-- Block sizes and payload addresses are multiples of it. -/
abbrev unitSize : Nat := 8

abbrev tagBytes : Nat := 8

abbrev minBlock : Nat := 16

abbrev maxBlock : Nat := 4294967288

abbrev tagLimit : Nat := UInt32.size

abbrev addressLimit : Nat := UInt64.size

/-- What the size of a block between the sentinels can be. -/
def IsBlockSize (size : Nat) : Prop := size % unitSize = 0 ∧ minBlock ≤ size ∧ size ≤ maxBlock

instance : DecidablePred IsBlockSize := fun size =>
  inferInstanceAs (Decidable (size % unitSize = 0 ∧ minBlock ≤ size ∧ size ≤ maxBlock))

def roundUp (bytes : Nat) : Nat := (bytes + 7) / unitSize * unitSize

def blockSizeFor? (request : Nat) : Option Nat :=
  let size := max minBlock (roundUp (request + tagBytes))
  if size ≤ maxBlock then some size else none

/-- The bytes of the least even number of tag words that is not below `words`. -/
def bytesOfWords? (words : Nat) : Option Nat :=
  let bytes := roundUp (words * wordSize)
  if bytes < addressLimit then some bytes else none

theorem roundUp_mod (bytes : Nat) : roundUp bytes % unitSize = 0 := by
  simp only [roundUp, unitSize]
  omega

theorem le_roundUp (bytes : Nat) : bytes ≤ roundUp bytes := by
  simp only [roundUp, unitSize]
  omega

theorem roundUp_lt (bytes : Nat) : roundUp bytes < bytes + unitSize := by
  simp only [roundUp, unitSize]
  omega

theorem roundUp_eq (bytes : Nat) (whole : bytes % unitSize = 0) : roundUp bytes = bytes := by
  simp only [roundUp, unitSize] at whole ⊢
  omega

theorem isBlockSize_of_blockSizeFor? {request need : Nat} (adjusted : blockSizeFor? request = some need) :
    IsBlockSize need ∧ request + tagBytes ≤ need := by
  simp only [blockSizeFor?] at adjusted
  split at adjusted <;> rename_i fits
  · obtain rfl : max minBlock (roundUp (request + tagBytes)) = need := by simpa using adjusted
    have whole := roundUp_mod (request + tagBytes)
    have covers := le_roundUp (request + tagBytes)
    exact ⟨⟨by lia, by omega, fits⟩, by omega⟩
  · cases adjusted

theorem bytesOfWords?_eq {size : Nat} (block : IsBlockSize size) : bytesOfWords? (size / wordSize) = some size := by
  obtain ⟨whole, least, most⟩ := block
  have exact : size / wordSize * wordSize = size := by lia
  simp only [bytesOfWords?, exact, roundUp_eq size whole]
  rw [if_pos (by lia)]

theorem IsBlockSize.max {a b : Nat} (left : IsBlockSize a) (right : IsBlockSize b) : IsBlockSize (max a b) := by
  simp only [IsBlockSize] at *
  lia

end BoundaryTag
