import BoundaryTag.Heap.Basic

namespace BoundaryTag

def Block.fits (block : Block) (need : Nat) : Bool := !block.allocated && need ≤ block.size

namespace Extent

def searchOrder (x : Extent) (m : Memory) : List Block :=
  m.walk x.cursor ++ (x.blocks m).takeWhile (·.addr < x.cursor)

def findFit? (x : Extent) (m : Memory) (need : Nat) : Option Block :=
  (x.searchOrder m).find? (·.fits need)

/-- Moves the cursor to the block that it finds. -/
def search (x : Extent) (m : Memory) (need : Nat) : Option Nat × Extent :=
  match x.findFit? m need with
  | some block => (some block.addr, { x with cursor := block.addr })
  | none => (none, x)

end Extent

def Memory.place (m : Memory) (block need : Nat) : Except Fault (Memory × Event) := do
  let size := (m.header block).size
  let rest ← checkedSub size need
  if minBlock ≤ rest then
    let front ← m.setTags block need true
    return (← front.setTags (block + need) rest false, .split block need rest)
  else
    return (← m.setTags block size true, .placed block size)

inductive Mode where
  | trusting
  | vetting
  deriving DecidableEq, Repr

namespace Extent

def vet (x : Extent) (m : Memory) (block : Nat) : Except Misuse Unit :=
  let tag := m.header block
  if block % unitSize ≠ 0 then .error (.misaligned block)
  else if block < x.start + frameBytes ∨ x.stop ≤ block then .error (.foreign block)
  else if tag.size < minBlock ∨ x.stop ≤ block - wordSize + tag.size then .error (.corruptHeader block)
  else if tag ≠ m.footer block then .error (.mismatchedTags block)
  else if !tag.isAllocated then .error (.notAllocated block)
  else .ok ()

end Extent

/-- Every pointer is foreign to a heap that was not set up. -/
def HeapM.vet {σ : Type} (mode : Mode) (block : Nat) : HeapM σ Unit := do
  if mode = .vetting then
    let x := (← get).heap.extent.getD ⟨0, 0, 0⟩
    ofChecked ((x.vet (← memory) block).mapError .misuse)

end BoundaryTag
