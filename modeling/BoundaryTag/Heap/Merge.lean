import BoundaryTag.Heap.Basic

namespace BoundaryTag

structure Merged where
  block : Nat
  memory : Memory
  cursor : Nat
  events : List Event := []

namespace Extent

/-- A cursor inside the merged block moves to its start. -/
def merge (x : Extent) (m : Memory) (block : Nat) : Except Fault Merged := do
  let prior := m.priorTag block
  let size := (m.header block).size
  let next := m.header (m.next block)
  if prior.isAllocated && next.isAllocated then return { block, memory := m, cursor := x.cursor }
  let front := if prior.isAllocated then block else m.prior block
  let before := if prior.isAllocated then 0 else (m.header front).size
  let after := if next.isAllocated then 0 else next.size
  let total ← checkedAdd size (before + after)
  let memory ← m.setTags front total false
  let inside := front < x.cursor && x.cursor < front + total
  return {
    block := front
    memory
    cursor := if inside then front else x.cursor
    events := [.merged block total front] }

end Extent

def HeapM.merge {σ : Type} (x : Extent) (block : Nat) : HeapM σ (Nat × Extent) := do
  let merged ← ofChecked (x.merge (← memory) block)
  let x := { x with cursor := merged.cursor }
  setMemory merged.memory
  setExtent x
  record merged.events
  return (merged.block, x)

end BoundaryTag
