import BoundaryTag.Heap.Basic

namespace BoundaryTag

structure Stats where
  heapSize : Nat := 0
  blocks : Nat := 0
  freeBlocks : Nat := 0
  freeBytes : Nat := 0
  allocatedBytes : Nat := 0
  deriving DecidableEq, Repr

inductive CheckError where
  | badPrologue (addr : Nat)
  | badEpilogue (addr : Nat)
  | misaligned (addr : Nat)
  | tooSmall (addr size : Nat)
  | outOfBounds (addr : Nat)
  | tagMismatch (addr : Nat)
  | adjacentFree (addr : Nat)
  | sizeMismatch (counted granted : Nat)
  | cursorMisplaced (addr : Nat)
  deriving DecidableEq, Repr

namespace CheckError

def message : CheckError → String
  | badPrologue addr => s!"start sentinel at {Hex.ofAddress addr} is damaged"
  | badEpilogue addr => s!"end sentinel at {Hex.ofAddress addr} is damaged or misplaced"
  | misaligned addr => s!"block at {Hex.ofAddress addr} is not aligned to {unitSize} bytes"
  | tooSmall addr size => s!"block at {Hex.ofAddress addr} is {size} bytes, below the minimum block size"
  | outOfBounds addr => s!"block at {Hex.ofAddress addr} runs past the end of the heap"
  | tagMismatch addr => s!"block at {Hex.ofAddress addr} has a header that differs from its footer"
  | adjacentFree addr => s!"free block at {Hex.ofAddress addr} follows another free block"
  | sizeMismatch counted granted => s!"blocks cover {counted} bytes but the provider granted {granted}"
  | cursorMisplaced addr => s!"search cursor {Hex.ofAddress addr} does not point at a block"

def relativeTo (base : Nat) : CheckError → CheckError
  | badPrologue addr => badPrologue (addr - base)
  | badEpilogue addr => badEpilogue (addr - base)
  | misaligned addr => misaligned (addr - base)
  | tooSmall addr size => tooSmall (addr - base) size
  | outOfBounds addr => outOfBounds (addr - base)
  | tagMismatch addr => tagMismatch (addr - base)
  | adjacentFree addr => adjacentFree (addr - base)
  | cursorMisplaced addr => cursorMisplaced (addr - base)
  | sizeMismatch counted granted => sizeMismatch counted granted

end CheckError

abbrev CheckM := Except (Stop CheckError)

namespace CheckM

def report {α : Type} (damage : CheckError) : CheckM α := .error (.failed damage)

def ofChecked {α : Type} (value : Except Fault α) : CheckM α := value.mapError .fault

def add (a b : Nat) : CheckM Nat := ofChecked (checkedAdd a b)

def sub (a b : Nat) : CheckM Nat := ofChecked (checkedSub a b)

end CheckM

/-- What a walk has seen before the block it is at. -/
structure Walked where
  stats : Stats
  /-- bytes of the frame and of the blocks seen -/
  counted : Nat := frameBytes
  priorFree : Bool := false
  cursorSeen : Bool

namespace Walked

open CheckM

def count (walked : Walked) (tag : Tag) : CheckM Walked := do
  let { stats, cursorSeen, .. } := walked
  let counted ← add walked.counted tag.size
  let blocks ← add stats.blocks 1
  if tag.isAllocated then
    let allocatedBytes ← add stats.allocatedBytes tag.size
    return { stats := { stats with blocks, allocatedBytes }, counted, priorFree := false, cursorSeen }
  else
    let freeBlocks ← add stats.freeBlocks 1
    let freeBytes ← add stats.freeBytes tag.size
    return { stats := { stats with blocks, freeBlocks, freeBytes }, counted, priorFree := true, cursorSeen }

end Walked

namespace Extent

open CheckM

def readTag (x : Extent) (m : Memory) (addr : Nat) : CheckM Tag :=
  if x.start ≤ addr ∧ addr + wordSize ≤ x.stop then .ok (m.tagAt addr) else .error (.fault (.unreadable addr))

/-- The tag of a sound block, or `none` at the end sentinel. -/
def inspect (x : Extent) (m : Memory) (priorFree : Bool) (addr : Nat) : CheckM (Option Tag) := do
  if addr % unitSize ≠ 0 then report (.misaligned addr)
  if x.stop < addr then report (.outOfBounds addr)
  let header ← sub addr wordSize
  let tag ← x.readTag m header
  if tag.size = 0 then
    if !tag.isAllocated || addr ≠ x.stop then report (.badEpilogue addr)
    return none
  if tag.size < minBlock then report (.tooSmall addr tag.size)
  if (← sub x.stop wordSize) < (← add header tag.size) then report (.outOfBounds addr)
  let footer ← x.readTag m (← sub (← add addr tag.size) tagBytes)
  if footer ≠ tag then report (.tagMismatch addr)
  if !tag.isAllocated && priorFree then report (.adjacentFree addr)
  return tag

def behind (addr size : Nat) : CheckM { next : Nat // addr < next ∧ next < addressLimit } :=
  if later : addr < addr + size ∧ addr + size < addressLimit then .ok ⟨addr + size, later⟩
  else .error (.fault .overflow)

def checkFrom (x : Extent) (m : Memory) (addr : Nat) (walked : Walked) : CheckM Walked := do
  let walked := { walked with cursorSeen := walked.cursorSeen || addr == x.cursor }
  match ← x.inspect m walked.priorFree addr with
  | none => return walked
  | some tag =>
    let ⟨next, _⟩ ← behind addr tag.size
    checkFrom x m next (← walked.count tag)
termination_by addressLimit - addr
decreasing_by omega

def check (x : Extent) (m : Memory) : CheckM Stats := do
  let _ ← add x.start x.size
  let sentinel ← add x.start unitSize
  let tag ← x.readTag m (← sub sentinel wordSize)
  if tag ≠ .pack unitSize true then report (.badPrologue sentinel)
  if (← x.readTag m sentinel) ≠ tag then report (.badPrologue sentinel)
  let walked ← x.checkFrom m (← add sentinel tag.size)
    { stats := { heapSize := x.size }, cursorSeen := x.cursor == sentinel }
  if walked.counted ≠ x.size then report (.sizeMismatch walked.counted x.size)
  if !walked.cursorSeen then report (.cursorMisplaced x.cursor)
  return walked.stats

end Extent

def Heap.check {σ : Type} (heap : Heap σ) (m : Memory) : CheckM Stats :=
  match heap.extent with
  | some x => x.check m
  | none => .ok {}

end BoundaryTag
