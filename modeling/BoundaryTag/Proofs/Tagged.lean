import BoundaryTag.Block

namespace BoundaryTag

namespace Block

def TagByte (block : Block) (address : Nat) : Prop :=
  block.addr - wordSize ≤ address ∧ address < block.addr - wordSize + wordSize ∨
    block.stop - tagBytes ≤ address ∧ address < block.stop - tagBytes + wordSize

def PayloadByte (block : Block) (address : Nat) : Prop :=
  block.addr ≤ address ∧ address < block.stop - tagBytes

structure Tagged (block : Block) (m : Memory) : Prop where
  header : m.header block.addr = .pack block.size block.allocated
  footer : m.tagAt (block.stop - tagBytes) = .pack block.size block.allocated

end Block

namespace Memory

def retag (m : Memory) (block : Block) : Memory :=
  (m.setTagAt (block.addr - wordSize) (.pack block.size block.allocated)).setTagAt (block.stop - tagBytes)
    (.pack block.size block.allocated)

variable {m other : Memory} {block : Block} {address : Nat}

theorem setTags_eq_retag (m : Memory) (block : Block) (whole : block.size % unitSize = 0)
    (fits : block.size < tagLimit) :
    m.setTags block.addr block.size block.allocated = .ok (m.retag block) :=
  setTags_eq_ok whole fits

theorem tagAt_congr (same : ∀ i < wordSize, other.byte (address + i) = m.byte (address + i)) :
    other.tagAt address = m.tagAt address := by
  simp only [tagAt, word_congr same]

theorem byte_setTagAt {target : Nat} {tag : Tag} (outside : address < target ∨ target + wordSize ≤ address) :
    (m.setTagAt target tag).byte address = m.byte address :=
  byte_setWord_of_outside outside

theorem byte_retag (outside : ¬block.TagByte address) : (m.retag block).byte address = m.byte address := by
  simp only [Block.TagByte, not_or, not_and] at outside
  simp only [retag]
  rw [byte_setTagAt (by omega), byte_setTagAt (by omega)]

end Memory

namespace Block.Tagged

variable {m other : Memory} {block : Block}

theorem retag (m : Memory) (block : Block) (low : wordSize ≤ block.addr) (least : unitSize ≤ block.size) :
    block.Tagged (m.retag block) := by
  constructor
  · simp only [Memory.retag, Memory.header]
    rw [Memory.tagAt_setTagAt_of_disjoint (by simp only [stop]; lia), Memory.tagAt_setTagAt]
  · simp only [Memory.retag, Memory.tagAt_setTagAt]

theorem congr (tagged : block.Tagged m)
    (same : ∀ address, block.TagByte address → other.byte address = m.byte address) : block.Tagged other := by
  constructor
  · rw [← tagged.header]
    exact Memory.tagAt_congr fun i small => same _ (.inl (by omega))
  · rw [← tagged.footer]
    exact Memory.tagAt_congr fun i small => same _ (.inr (by omega))

theorem header_size (tagged : block.Tagged m) (whole : block.size % unitSize = 0) (fits : block.size < tagLimit) :
    (m.header block.addr).size = block.size := by
  rw [tagged.header, Tag.size_pack _ _ whole fits]

theorem header_isAllocated (tagged : block.Tagged m) (whole : block.size % unitSize = 0) :
    (m.header block.addr).isAllocated = block.allocated := by
  rw [tagged.header, Tag.isAllocated_pack _ _ whole]

theorem next_eq (tagged : block.Tagged m) (whole : block.size % unitSize = 0) (fits : block.size < tagLimit) :
    m.next block.addr = block.stop := by
  simp only [Memory.next, tagged.header_size whole fits, stop]

end Block.Tagged

end BoundaryTag
