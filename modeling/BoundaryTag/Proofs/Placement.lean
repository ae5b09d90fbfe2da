import BoundaryTag.Heap.Blocks
import BoundaryTag.Proofs.Soundness

namespace BoundaryTag

namespace Block

def Splits (block : Block) (need : Nat) : Prop := minBlock ≤ block.size - need

instance (block : Block) : DecidablePred block.Splits := fun need =>
  inferInstanceAs (Decidable (minBlock ≤ block.size - need))

def granted (block : Block) (need : Nat) : Block :=
  ⟨block.addr, if block.Splits need then need else block.size, true⟩

def spare (block : Block) (need : Nat) : List Block :=
  if block.Splits need then [⟨block.addr + need, block.size - need, false⟩] else []

def placed (block : Block) (need : Nat) : List Block := block.granted need :: block.spare need

def placement (block : Block) (need : Nat) : Event :=
  if block.Splits need then .split block.addr need (block.size - need) else .placed block.addr block.size

variable {block : Block} {need start stop : Nat}

theorem spare_free {other : Block} (member : other ∈ block.spare need) : other.allocated = false := by
  simp only [spare] at member
  split at member
  · rw [List.mem_singleton.mp member]
  · cases member

/-- The payload of a served request misses the header and the footer, and may be a unit larger. -/
theorem granted_size (enough : need ≤ block.size) (whole : need % unitSize = 0) (even : block.size % unitSize = 0) :
    (block.granted need).size = need ∨ (block.granted need).size = need + tagBytes := by
  by_cases splits : block.Splits need
  · exact .inl (by simp only [granted, if_pos splits])
  · simp only [granted, if_neg splits]
    simp only [Splits] at splits
    lia

theorem placed_tiles (least : minBlock ≤ need) (whole : need % unitSize = 0) (tiles : Tiles start [block] stop) :
    Tiles start (block.placed need) stop := by
  by_cases splits : block.Splits need
  · simp only [placed, granted, spare, if_pos splits, Tiles, Block.stop] at tiles ⊢
    simp only [Splits] at splits
    lia
  · simpa only [placed, granted, spare, if_neg splits, Tiles, Block.stop] using tiles

end Block

namespace Memory

variable {m : Memory} {block : Block} {need address : Nat}

theorem byte_foldl_retag {blocks : List Block} (outside : ∀ block ∈ blocks, ¬block.TagByte address) :
    (blocks.foldl retag m).byte address = m.byte address := by
  induction blocks generalizing m with
  | nil => rfl
  | cons block rest ih =>
    rw [List.foldl_cons, ih fun other member => outside other (List.mem_cons_of_mem _ member)]
    exact byte_retag (outside block List.mem_cons_self)

theorem place_eq (size : (m.header block.addr).size = block.size) (whole : block.size % unitSize = 0)
    (fits : block.size < tagLimit) (enough : need ≤ block.size) (even : need % unitSize = 0) :
    m.place block.addr need = .ok ((block.placed need).foldl retag m, block.placement need) := by
  have front := setTags_eq_retag m ⟨block.addr, need, true⟩ even (Nat.lt_of_le_of_lt enough fits)
  have all := setTags_eq_retag m ⟨block.addr, block.size, true⟩ whole fits
  have back := setTags_eq_retag (m.retag ⟨block.addr, need, true⟩) ⟨block.addr + need, block.size - need, false⟩
    (by dsimp only; lia) (Nat.lt_of_le_of_lt (Nat.sub_le _ _) fits)
  dsimp only at front all back
  simp only [place, size, checkedSub, if_pos enough, Bind.bind, Except.bind]
  by_cases splits : block.Splits need
  · simp only [Block.placed, Block.granted, Block.spare, Block.placement, if_pos splits, List.foldl_cons,
      List.foldl_nil]
    simp only [Block.Splits] at splits
    simp only [if_pos splits, front, back]
    rfl
  · simp only [Block.placed, Block.granted, Block.spare, Block.placement, if_neg splits, List.foldl_cons,
      List.foldl_nil]
    simp only [Block.Splits] at splits
    simp only [if_neg splits, all]
    rfl

end Memory

theorem Tiles.tagged {start stop : Nat} {blocks : List Block} (tiles : Tiles start blocks stop)
    (low : wordSize ≤ start) (m : Memory) : ∀ block ∈ blocks, block.Tagged (blocks.foldl .retag m) := by
  induction blocks generalizing start m with
  | nil => simp
  | cons first rest ih =>
    obtain ⟨begins, whole, least, tail⟩ := tiles
    have beyond : wordSize ≤ first.stop := by
      simp only [Block.stop]
      omega
    intro block member
    rw [List.foldl_cons]
    rcases List.mem_cons.mp member with rfl | member
    · apply (Block.Tagged.retag m block (by omega) (by lia)).congr
      intro address tag
      apply Memory.byte_foldl_retag
      intro other otherMember otherTag
      have own := tag.within (by omega) (by lia)
      have apart := otherTag.inside tail otherMember beyond
      omega
    · exact ih tail beyond _ block member

namespace Extent

variable {x : Extent} {m : Memory} {left right : List Block} {block : Block} {need : Nat}

theorem Tiled.placed (tiled : x.Tiled m (left ++ [block] ++ right)) (least : minBlock ≤ need)
    (whole : need % unitSize = 0) :
    x.Tiled ((block.placed need).foldl .retag m) (left ++ block.placed need ++ right) := by
  obtain ⟨start, stop, lower, run, rest⟩ := tiled.tiles.split
  have low := lower.start_le
  refine tiled.replace (fun own => Block.placed_tiles least whole own) ?_ fun _ => Memory.byte_foldl_retag
  exact (Block.placed_tiles least whole run).tagged (by lia) m

theorem CursorAt.placed (cursor : x.CursorAt (left ++ [block] ++ right)) :
    x.CursorAt (left ++ block.placed need ++ right) := by
  rcases cursor with sentinel | ⟨other, member, points⟩
  · exact .inl sentinel
  · simp only [List.mem_append, List.mem_singleton] at member
    rcases member with (member | rfl) | member
    · exact .inr ⟨other, by simp [member], points⟩
    · exact .inr ⟨other.granted need, by simp [Block.placed], points⟩
    · exact .inr ⟨other, by simp [member], points⟩

end Extent

theorem Separated.placed {left right : List Block} {block : Block} (separated : Separated (left ++ [block] ++ right))
    (free : block.allocated = false) (need : Nat) : Separated (left ++ block.placed need ++ right) := by
  obtain ⟨ahead, behind, closed⟩ := List.isChain_append.mp separated
  obtain ⟨ahead, -, -⟩ := List.isChain_append.mp ahead
  have closed : ∀ b ∈ right.head?, b.allocated = true := fun b member =>
    (closed block (by simp) b member).resolve_left (by simp [free])
  have inner : Separated (block.placed need) := by
    simp only [Block.placed, Block.spare]
    split
    · exact .cons_cons (.inl rfl) (.singleton _)
    · exact .singleton _
  refine List.isChain_append.mpr ⟨List.isChain_append.mpr ⟨ahead, inner, ?_⟩, behind, ?_⟩
  · intro _ _ b member
    obtain rfl : block.granted need = b := by simpa [Block.placed] using member
    exact .inr rfl
  · exact fun _ _ b member => .inr (closed b member)

theorem Extent.Sound.placed {x : Extent} {m : Memory} {left right : List Block} {block : Block} {need : Nat}
    (sound : x.Sound m (left ++ [block] ++ right)) (free : block.allocated = false) (least : minBlock ≤ need)
    (whole : need % unitSize = 0) :
    x.Sound ((block.placed need).foldl .retag m) (left ++ block.placed need ++ right) :=
  ⟨sound.toTiled.placed least whole, sound.separated.placed free need, sound.cursor.placed⟩

end BoundaryTag
