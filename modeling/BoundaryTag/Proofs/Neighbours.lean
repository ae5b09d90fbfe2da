import BoundaryTag.Proofs.Layout

namespace BoundaryTag.Extent.Tiled

variable {x : Extent} {m : Memory} {front back : List Block} {block before after : Block}

theorem next_eq (tiled : x.Tiled m (front ++ block :: back)) : m.next block.addr = block.stop := by
  rw [Memory.next, tiled.size_eq (by simp), Block.stop]

theorem header_isAllocated (tiled : x.Tiled m (front ++ block :: back)) :
    (m.header block.addr).isAllocated = block.allocated := by
  have member : block ∈ front ++ block :: back := by simp
  exact (tiled.tagged block member).header_isAllocated (tiled.isBlockSize member).1

theorem next_eq_addr (tiled : x.Tiled m (front ++ block :: after :: back)) : m.next block.addr = after.addr := by
  obtain ⟨-, -, -, begins, -⟩ := tiled.tiles.around
  rw [tiled.next_eq, begins]

theorem next_eq_stop (tiled : x.Tiled m (front ++ [block])) : m.next block.addr = x.stop := by
  rw [tiled.next_eq]
  exact tiled.tiles.around.2.2.2

theorem priorTag_eq (tiled : x.Tiled m (front ++ before :: block :: back)) :
    m.priorTag block.addr = .pack before.size before.allocated := by
  obtain ⟨-, -, -, begins, -⟩ := tiled.tiles.around
  rw [Memory.priorTag, begins]
  exact (tiled.tagged before (by simp)).footer

theorem priorTag_first (tiled : x.Tiled m (block :: back)) : m.priorTag block.addr = .pack unitSize true := by
  obtain ⟨begins, -⟩ := tiled.tiles
  rw [Memory.priorTag, begins]
  exact tiled.sentinel.footer

theorem prior_eq (tiled : x.Tiled m (front ++ before :: block :: back)) : m.prior block.addr = before.addr := by
  have member : before ∈ front ++ before :: block :: back := by simp
  obtain ⟨-, -, -, begins, -⟩ := tiled.tiles.around
  rw [Memory.prior, tiled.priorTag_eq, Tag.size_pack _ _ (tiled.isBlockSize member).1 (tiled.fits member), begins,
    Block.stop, Nat.add_sub_cancel]

theorem priorTag_isAllocated (tiled : x.Tiled m (front ++ before :: block :: back)) :
    (m.priorTag block.addr).isAllocated = before.allocated := by
  rw [tiled.priorTag_eq, Tag.isAllocated_pack _ _ (tiled.isBlockSize (by simp : before ∈ _)).1]

theorem priorTag_closed (tiled : x.Tiled m (front ++ block :: back))
    (closed : ∀ before ∈ front.getLast?, before.allocated = true) :
    (m.priorTag block.addr).isAllocated = true := by
  rcases List.eq_nil_or_concat' front with rfl | ⟨rest, before, rfl⟩
  · rw [tiled.priorTag_first, Tag.isAllocated_pack _ _ (by decide)]
  · rw [List.append_assoc, List.singleton_append] at tiled
    rw [tiled.priorTag_isAllocated]
    exact closed before (by simp)

theorem next_closed (tiled : x.Tiled m (front ++ block :: back))
    (closed : ∀ after ∈ back.head?, after.allocated = true) :
    (m.header (m.next block.addr)).isAllocated = true := by
  cases back with
  | nil => rw [tiled.next_eq_stop, tiled.terminator, Tag.isAllocated_pack _ _ (by decide)]
  | cons after back =>
    rw [tiled.next_eq_addr]
    rw [show front ++ block :: after :: back = (front ++ [block]) ++ after :: back by simp] at tiled
    rw [tiled.header_isAllocated]
    exact closed after (by simp)

end BoundaryTag.Extent.Tiled
