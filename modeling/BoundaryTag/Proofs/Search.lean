import BoundaryTag.Heap.Blocks
import BoundaryTag.Proofs.Soundness

namespace BoundaryTag.Extent

namespace Sound

variable {x : Extent} {m : Memory} {blocks : List Block}

theorem walk_startSentinel (sound : x.Sound m blocks) : m.walk x.startSentinel = x.sentinel :: blocks := by
  have size := sound.sentinel_size
  have low := sound.tiles.start_le
  have high := sound.bounded
  rw [Memory.walk_eq_cons (by lia) (by simp only [startSentinel]; lia), size, sound.sentinel_isAllocated]
  congr 1
  exact sound.toTiled.blocks_eq

theorem searchOrder_cases (sound : x.Sound m blocks) :
    x.cursor = x.startSentinel ∧ x.searchOrder m = x.sentinel :: blocks ∨
      ∃ front block back, blocks = front ++ block :: back ∧ x.cursor = block.addr ∧
        x.searchOrder m = block :: back ++ front := by
  rcases sound.cursor with sentinel | ⟨block, member, points⟩
  · refine .inl ⟨sentinel, ?_⟩
    have none : blocks.takeWhile (·.addr < x.cursor) = [] := by
      refine (sound.tiles.cut_low ?_).1
      simp only [sentinel, startSentinel]
      lia
    rw [searchOrder, sound.toTiled.blocks_eq, none, List.append_nil, sentinel, sound.walk_startSentinel]
  · obtain ⟨front, back, rfl⟩ := List.append_of_mem member
    obtain ⟨left, whole, least, right⟩ := sound.tiles.around
    have before : (front ++ block :: back).takeWhile (·.addr < x.cursor) = front := by
      rw [← points]
      exact sound.tiles.cut.1
    have tiles : Tiles block.addr (block :: back) x.stop := ⟨rfl, whole, least, right⟩
    have walk := sound.toTiled.walk_suffix tiles
    exact .inr ⟨front, block, back, rfl, points.symm, by
      rw [searchOrder, sound.toTiled.blocks_eq, before, ← points, walk]⟩

theorem mem_searchOrder (sound : x.Sound m blocks) {block : Block} (free : block.allocated = false) :
    block ∈ x.searchOrder m ↔ block ∈ blocks := by
  rcases sound.searchOrder_cases with ⟨-, order⟩ | ⟨front, first, back, rfl, -, order⟩
  · rw [order, List.mem_cons, or_iff_right]
    rintro rfl
    cases free
  · rw [order]
    simp only [List.mem_append, List.mem_cons]
    tauto

theorem mem_of_findFit? (sound : x.Sound m blocks) {need : Nat} {block : Block}
    (found : x.findFit? m need = some block) :
    block ∈ blocks ∧ block.allocated = false ∧ need ≤ block.size := by
  have fits := List.find?_some found
  simp only [Block.fits, Bool.and_eq_true, Bool.not_eq_true', decide_eq_true_eq] at fits
  exact ⟨(sound.mem_searchOrder fits.1).mp (List.mem_of_find?_eq_some found), fits⟩

theorem findFit?_eq_none_iff (sound : x.Sound m blocks) (need : Nat) :
    x.findFit? m need = none ↔ ∀ block ∈ blocks, block.fits need = false := by
  rw [findFit?, List.find?_eq_none]
  constructor
  · intro none block member
    by_cases free : block.allocated = false
    · simpa using none block ((sound.mem_searchOrder free).mpr member)
    · simp [Block.fits, free]
  · intro none block member
    by_cases free : block.allocated = false
    · simpa using none block ((sound.mem_searchOrder free).mp member)
    · simp [Block.fits, free]

end Sound

end BoundaryTag.Extent
