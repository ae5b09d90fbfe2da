import BoundaryTag.Heap.Blocks
import BoundaryTag.Heap.Grow

namespace BoundaryTag.HeapM

variable {σ : Type} [Source σ]

def tryAllocate (size : Nat) : HeapM σ (Option Nat) := do
  let x ← init
  if size = 0 then return none
  let some need := blockSizeFor? size | fail (.requestTooLarge size)
  let (found, x) := x.search (← memory) need
  setExtent x
  let block ← match found with
    | some block => pure block
    | none => Prod.fst <$> extend x (max need (← config).chunkSize / wordSize)
  let (placed, event) ← ofChecked ((← memory).place block need)
  setMemory placed
  record [event]
  return block

def allocate (size : Nat) : HeapM σ (Option Nat) := do
  match ← attempt (tryAllocate size) with
  | .ok pointer => return pointer
  | .error cause =>
    record [.allocationFailed size cause]
    return none

def free (mode : Mode) (pointer : Option Nat) : HeapM σ Unit := do
  let some block := pointer | return
  match ← attempt init with
  | .error cause => record [.releaseFailed block cause]
  | .ok x =>
    vet mode block
    let m ← memory
    setMemory (← ofChecked (m.setTags block (m.header block).size false))
    let _ ← merge x block

/-- Moves the contents of a live pointer to a payload of `size` bytes; an empty request releases it.
    Where no memory is left, it stays as it is and the answer is null. -/
def reallocate (mode : Mode) (pointer : Option Nat) (size : Nat) : HeapM σ (Option Nat) := do
  if size = 0 then
    free mode pointer
    return none
  let some block := pointer | allocate size
  vet mode block
  let some target ← allocate size | return none
  let m ← memory
  let usable ← ofChecked (m.usableSize block)
  setMemory (m.copy block target (min size usable))
  free mode block
  return target

end BoundaryTag.HeapM
