import BoundaryTag.Heap.Basic
import BoundaryTag.Proofs.Chains

namespace BoundaryTag

namespace Block.TagByte

variable {block : Block} {address : Nat}

theorem within (tag : block.TagByte address) (low : wordSize ≤ block.addr) (least : unitSize ≤ block.size) :
    block.addr ≤ address + wordSize ∧ address + wordSize < block.stop := by
  rcases tag with header | footer
  · simp only [stop] at *
    lia
  · simp only [stop] at *
    lia

theorem inside {start stop : Nat} {blocks : List Block} (tag : block.TagByte address)
    (tiles : Tiles start blocks stop) (member : block ∈ blocks) (low : wordSize ≤ start) :
    start ≤ address + wordSize ∧ address + wordSize < stop := by
  obtain ⟨above, below, -, least⟩ := tiles.within member
  have own := tag.within (by omega) (by lia)
  omega

end Block.TagByte

namespace Extent

def sentinel (x : Extent) : Block := ⟨x.startSentinel, unitSize, true⟩

def TagByte (x : Extent) (blocks : List Block) (address : Nat) : Prop :=
  x.sentinel.TagByte address ∨ (∃ block ∈ blocks, block.TagByte address) ∨
    x.stop - wordSize ≤ address ∧ address < x.stop - wordSize + wordSize

theorem sentinel_tag {x : Extent} {address : Nat} (tag : x.sentinel.TagByte address) :
    x.start ≤ address ∧ address + wordSize < x.start + frameBytes := by
  have own := tag.within (by simp only [sentinel, startSentinel]; lia) (by simp only [sentinel]; omega)
  simp only [sentinel, startSentinel, Block.stop] at own
  lia

/-- The blocks lie between the two sentinels of the heap, and all tags are right. -/
structure Tiled (x : Extent) (m : Memory) (blocks : List Block) : Prop where
  aligned : x.start % unitSize = 0
  bounded : x.stop < addressLimit
  encodable : x.size ≤ frameBytes + maxBlock
  sentinel : x.sentinel.Tagged m
  tiles : Tiles (x.start + frameBytes) blocks x.stop
  tagged : ∀ block ∈ blocks, block.Tagged m
  terminator : m.header x.stop = .pack 0 true

namespace Tiled

variable {x : Extent} {m other : Memory} {blocks front back old new : List Block} {block : Block}

theorem frame_le (tiled : x.Tiled m blocks) : frameBytes ≤ x.size := by
  have room := tiled.tiles.start_le
  simp only [stop] at room
  omega

theorem sum_eq (tiled : x.Tiled m blocks) : (blocks.map Block.size).sum + frameBytes = x.size := by
  have total := tiled.tiles.stop_eq
  simp only [stop] at total
  omega

theorem isBlockSize (tiled : x.Tiled m blocks) (member : block ∈ blocks) : IsBlockSize block.size := by
  obtain ⟨above, below, whole, least⟩ := tiled.tiles.within member
  have limit := tiled.encodable
  refine ⟨whole, least, ?_⟩
  simp only [Block.stop, stop] at below
  omega

theorem fits (tiled : x.Tiled m blocks) (member : block ∈ blocks) : block.size < tagLimit := by
  have limit := (tiled.isBlockSize member).2.2
  lia

theorem size_eq (tiled : x.Tiled m blocks) (member : block ∈ blocks) : (m.header block.addr).size = block.size :=
  (tiled.tagged block member).header_size (tiled.isBlockSize member).1 (tiled.fits member)

theorem header_eq_footer (tiled : x.Tiled m blocks) (member : block ∈ blocks) :
    m.header block.addr = m.footer block.addr := by
  have tagged := tiled.tagged block member
  rw [Memory.footer, tiled.size_eq member, tagged.header]
  exact tagged.footer.symm

theorem addr_mod (tiled : x.Tiled m blocks) (member : block ∈ blocks) : block.addr % unitSize = 0 := by
  have start := tiled.aligned
  exact tiled.tiles.addr_mod (by lia) member

theorem stop_mod (tiled : x.Tiled m blocks) : x.stop % unitSize = 0 := by
  have start := tiled.aligned
  exact tiled.tiles.stop_mod (by lia)

theorem sentinel_size (tiled : x.Tiled m blocks) : (m.header x.startSentinel).size = unitSize :=
  tiled.sentinel.header_size (show unitSize % unitSize = 0 by decide) (show unitSize < tagLimit by decide)

theorem sentinel_isAllocated (tiled : x.Tiled m blocks) : (m.header x.startSentinel).isAllocated = true :=
  tiled.sentinel.header_isAllocated (show unitSize % unitSize = 0 by decide)

theorem first_eq (tiled : x.Tiled m blocks) : x.first m = x.start + frameBytes := by
  rw [Extent.first, Memory.next, tiled.sentinel_size, startSentinel]
  lia

theorem terminator_size (tiled : x.Tiled m blocks) : (m.header x.stop).size = 0 := by
  rw [tiled.terminator, Tag.size_pack 0 true (by decide) (by decide)]

theorem walk_suffix (tiled : x.Tiled m (front ++ back)) {start : Nat} (tiles : Tiles start back x.stop) :
    m.walk start = back := by
  have chained : m.Chained start back x.stop :=
    Memory.chained_of_tiles tiles (fun _ member => tiled.tagged _ (List.mem_append_right _ member))
      fun _ member => tiled.fits (List.mem_append_right _ member)
  exact chained.walk_eq (fun _ member => (tiles.within member).2.2.2) tiled.terminator_size tiled.bounded

theorem blocks_eq (tiled : x.Tiled m blocks) : x.blocks m = blocks := by
  rw [Extent.blocks, tiled.first_eq]
  have whole : x.Tiled m ([] ++ blocks) := tiled
  exact whole.walk_suffix tiled.tiles

theorem tag_inside {address : Nat} (tiled : x.Tiled m blocks) (tag : x.TagByte blocks address) :
    x.start ≤ address ∧ address < x.stop := by
  have room := tiled.tiles.start_le
  rcases tag with tag | ⟨block, member, tag⟩ | terminator
  · have own := sentinel_tag tag
    omega
  · have own := tag.inside tiled.tiles member (by lia)
    lia
  · lia

theorem payload_not_tag {address : Nat} (tiled : x.Tiled m blocks) (member : block ∈ blocks)
    (payload : block.PayloadByte address) : ¬x.TagByte blocks address := by
  obtain ⟨above, below⟩ := payload
  have bounds := tiled.tiles.within member
  rintro (tag | ⟨other, otherMember, tag⟩ | ⟨terminator, -⟩)
  · have own := sentinel_tag tag
    omega
  · by_cases same : other = block
    · subst same
      simp only [Block.TagByte] at tag
      lia
    · have otherBounds := tiled.tiles.within otherMember
      have own := tag.within (by lia) (by lia)
      have apart := tiled.tiles.apart otherMember member same
      lia
  · lia

theorem payload_apart {address : Nat} {other : Block} (tiled : x.Tiled m blocks) (first : block ∈ blocks)
    (second : other ∈ blocks) (distinct : block ≠ other) (payload : block.PayloadByte address) :
    ¬other.PayloadByte address := by
  have apart := tiled.tiles.apart first second distinct
  simp only [Block.PayloadByte, Block.stop] at *
  omega

theorem payload_inside {address : Nat} (tiled : x.Tiled m blocks) (member : block ∈ blocks)
    (payload : block.PayloadByte address) : x.start + frameBytes ≤ address ∧ address < x.stop := by
  have bounds := tiled.tiles.within member
  simp only [Block.PayloadByte] at payload
  omega

theorem withCursor (tiled : x.Tiled m blocks) (cursor : Nat) : { x with cursor }.Tiled m blocks :=
  ⟨tiled.aligned, tiled.bounded, tiled.encodable, tiled.sentinel, tiled.tiles, tiled.tagged, tiled.terminator⟩

theorem congr (tiled : x.Tiled m blocks)
    (same : ∀ address, x.TagByte blocks address → other.byte address = m.byte address) : x.Tiled other blocks where
  aligned := tiled.aligned
  bounded := tiled.bounded
  encodable := tiled.encodable
  sentinel := tiled.sentinel.congr fun _ tag => same _ (.inl tag)
  tiles := tiled.tiles
  tagged block member := (tiled.tagged block member).congr fun _ tag => same _ (.inr (.inl ⟨block, member, tag⟩))
  terminator := by
    have room := tiled.frame_le
    rw [← tiled.terminator]
    exact Memory.tagAt_congr fun i small => same _ (.inr (.inr (by simp only [stop]; omega)))

theorem replace (tiled : x.Tiled m (front ++ old ++ back))
    (exchange : ∀ {start stop}, Tiles start old stop → Tiles start new stop)
    (tagged : ∀ block ∈ new, block.Tagged other)
    (same : ∀ address, (∀ block ∈ new, ¬block.TagByte address) → other.byte address = m.byte address) :
    x.Tiled other (front ++ new ++ back) := by
  obtain ⟨lower, upper, left, hole, right⟩ := tiled.tiles.split
  have filled := exchange hole
  have low := left.start_le
  have middle := filled.start_le
  have high := right.start_le
  have outside : ∀ address, address + wordSize < lower ∨ upper ≤ address + wordSize →
      other.byte address = m.byte address := by
    intro address apart
    apply same address
    intro block member tag
    have inside := tag.inside filled member (by lia)
    omega
  refine ⟨tiled.aligned, tiled.bounded, tiled.encodable, ?_, (left.append filled).append right, ?_, ?_⟩
  · refine tiled.sentinel.congr fun address tag => outside address (.inl ?_)
    have own := sentinel_tag tag
    omega
  · intro block member
    simp only [List.mem_append] at member
    rcases member with (member | member) | member
    · refine (tiled.tagged block (by simp [member])).congr fun address tag => outside address (.inl ?_)
      exact (tag.inside left member (by lia)).2
    · exact tagged block member
    · refine (tiled.tagged block (by simp [member])).congr fun address tag => outside address (.inr ?_)
      exact (tag.inside right member (by lia)).1
  · rw [← tiled.terminator]
    refine Memory.tagAt_congr fun i small => outside _ (.inr ?_)
    omega

end Tiled

end Extent

end BoundaryTag
