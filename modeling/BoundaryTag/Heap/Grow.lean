import BoundaryTag.Heap.Merge

namespace BoundaryTag.HeapM

variable {σ : Type} [Source σ]

def request (bytes : Nat) : HeapM σ Nat := do
  let grant := Source.grow (← get).heap.source bytes
  modify fun s => { s with heap := { s.heap with source := grant.source } }
  record (grant.events.map .source ++ [.requested bytes grant.answer])
  ofAnswer grant.answer

/-- Grows the heap by an even number of tag words, at least `words`. Answers the free block that holds
    them, and the extent. All blocks may merge into one, so together they stay within `maxBlock`. -/
def extend (x : Extent) (words : Nat) : HeapM σ (Nat × Extent) := do
  let some size := bytesOfWords? words
    | fail (.requestTooLarge (min (words * wordSize) (addressLimit - 1)))
  let held ← ofChecked (checkedSub x.size frameBytes)
  if maxBlock < held + size then fail (.outOfMemory size)
  let start ← request size
  if start ≠ x.stop then throw (.fault (.discontiguous x.stop start))
  let x := { x with size := ← ofChecked (checkedAdd x.size size) }
  setExtent x
  record [.grown size x.size]
  let m ← ofChecked ((← memory).setTags start size false)
  setMemory (m.setTagAt (start + size - wordSize) (.pack 0 true))
  merge x start

def frame (m : Memory) (start : Nat) : Memory :=
  let padding := m.setTagAt start (.pack 0 false)
  let header := padding.setTagAt (start + wordSize) (.pack unitSize true)
  let footer := header.setTagAt (start + 2 * wordSize) (.pack unitSize true)
  footer.setTagAt (start + 3 * wordSize) (.pack 0 true)

/-- Sets the heap up unless that is done. Where only the first growth fails, the sentinels stay and
    later requests grow the heap. -/
def init : HeapM σ Extent := do
  if let some x := (← get).heap.extent then return x
  let config ← config
  ofAnswer config.validate
  let start ← request frameBytes
  let x : Extent := { start, size := frameBytes, cursor := start + unitSize }
  setMemory (frame (← memory) start)
  setExtent x
  record [.initialized start]
  let (_, x) ← extend x (config.initialSize / wordSize)
  let x := { x with cursor := x.first (← memory) }
  setExtent x
  return x

end BoundaryTag.HeapM
