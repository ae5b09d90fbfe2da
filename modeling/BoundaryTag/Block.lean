import BoundaryTag.Memory
import BoundaryTag.Tag

/-!
Blocks in memory. A block is named by the address of its payload: its header is the word before the
payload, its footer the last word of the block, and the payload of the next block follows one word
later. So both neighbours of a block are found from tags beside it.
-/

namespace BoundaryTag

structure Block where
  addr : Nat
  size : Nat
  allocated : Bool
  deriving DecidableEq, Repr

/-- Where the block that follows has its payload. -/
def Block.stop (block : Block) : Nat := block.addr + block.size

namespace Memory

def tagAt (m : Memory) (addr : Nat) : Tag := ⟨m.word addr⟩

def setTagAt (m : Memory) (addr : Nat) (tag : Tag) : Memory := m.setWord addr tag.word

def header (m : Memory) (block : Nat) : Tag := m.tagAt (block - wordSize)

def footer (m : Memory) (block : Nat) : Tag := m.tagAt (block + (m.header block).size - tagBytes)

def next (m : Memory) (block : Nat) : Nat := block + (m.header block).size

def priorTag (m : Memory) (block : Nat) : Tag := m.tagAt (block - tagBytes)

def prior (m : Memory) (block : Nat) : Nat := block - (m.priorTag block).size

def usableSize (m : Memory) (block : Nat) : Except Fault Nat := checkedSub (m.header block).size tagBytes

def setTags (m : Memory) (block size : Nat) (allocated : Bool) : Except Fault Memory := do
  let tag ← Tag.packed size allocated
  return (m.setTagAt (block - wordSize) tag).setTagAt (block + size - tagBytes) tag

/-- The blocks from `block` on, up to a header of size zero. -/
def walk (m : Memory) (block : Nat) : List Block :=
  if 0 < (m.header block).size ∧ block < addressLimit then
    ⟨block, (m.header block).size, (m.header block).isAllocated⟩ :: m.walk (m.next block)
  else []
termination_by addressLimit - block
decreasing_by
  simp only [next]
  omega

theorem tagAt_setTagAt (m : Memory) (addr : Nat) (tag : Tag) : (m.setTagAt addr tag).tagAt addr = tag := by
  simp only [tagAt, setTagAt, word_setWord]

theorem tagAt_setTagAt_of_disjoint {m : Memory} {addr target : Nat} {tag : Tag}
    (apart : addr + wordSize ≤ target ∨ target + wordSize ≤ addr) :
    (m.setTagAt target tag).tagAt addr = m.tagAt addr := by
  simp only [tagAt, setTagAt, word_setWord_of_disjoint apart]

theorem setTags_eq_ok {m : Memory} {block size : Nat} {allocated : Bool}
    (aligned : size % unitSize = 0) (fits : size < tagLimit) :
    m.setTags block size allocated =
      .ok ((m.setTagAt (block - wordSize) (.pack size allocated)).setTagAt (block + size - tagBytes)
        (.pack size allocated)) := by
  simp only [setTags, Tag.packed_eq_ok size allocated aligned fits]
  rfl

theorem walk_eq_nil {m : Memory} {block : Nat} (zero : (m.header block).size = 0) : m.walk block = [] := by
  rw [walk, if_neg (by omega)]

theorem walk_eq_cons {m : Memory} {block : Nat} (positive : 0 < (m.header block).size)
    (bounded : block < addressLimit) :
    m.walk block = ⟨block, (m.header block).size, (m.header block).isAllocated⟩ :: m.walk (m.next block) := by
  rw [walk, if_pos ⟨positive, bounded⟩]

end Memory

end BoundaryTag
