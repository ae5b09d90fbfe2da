import BoundaryTag.Proofs.Balance
import BoundaryTag.Proofs.Exchange

namespace BoundaryTag

/-- The run of blocks around one that is released, with what is before and behind: the block itself and its
    neighbours, as far as these are free. -/
structure FreeRun (blocks : List Block) (block : Block) (left run right : List Block) : Prop where
  parts : blocks = left ++ run ++ right
  neighbours : ∃ before after : Option Block,
    run = before.toList ++ block :: after.toList ∧ FreeNeighbours left before after right

namespace Block

variable {block merged : Block} {before after : Option Block} {cursor : Nat}

structure Merges (merged : Block) (run : List Block) : Prop where
  free : merged.allocated = false
  begins : run.head?.map Block.addr = some merged.addr
  size : merged.size = (run.map Block.size).sum

def Contains (block : Block) (address : Nat) : Prop := block.addr ≤ address ∧ address < block.stop

theorem join_merges (block : Block) (before after : Option Block) :
    (block.join before after).Merges (before.toList ++ block :: after.toList) := by
  refine ⟨rfl, ?_, ?_⟩
  · cases before <;> rfl
  · cases before <;> cases after <;> simp [join] <;> omega

theorem relocate_of_inside (inside : merged.addr < cursor ∧ cursor < merged.stop) :
    merged.relocate cursor = merged.addr := if_pos inside

theorem relocate_of_outside (outside : ¬(merged.addr < cursor ∧ cursor < merged.stop)) :
    merged.relocate cursor = cursor := if_neg outside

end Block

theorem Extent.CursorAt.contains {x : Extent} {blocks : List Block} {merged : Block}
    (member : merged ∈ blocks)
    (cursor : { x with cursor := merged.relocate x.cursor }.CursorAt blocks)
    (tiles : Tiles (x.start + frameBytes) blocks x.stop) :
    x.cursor = x.startSentinel ∧ merged.relocate x.cursor = x.startSentinel ∨
      ∃ block ∈ blocks, block.addr = merged.relocate x.cursor ∧ block.Contains x.cursor := by
  by_cases inside : merged.addr < x.cursor ∧ x.cursor < merged.stop
  · refine .inr ⟨merged, member, (Block.relocate_of_inside inside).symm, ?_, inside.2⟩
    exact Nat.le_of_lt inside.1
  · have stays := Block.relocate_of_outside inside
    rw [stays] at cursor ⊢
    rcases cursor with sentinel | ⟨block, member, points⟩
    · exact .inl ⟨sentinel, sentinel⟩
    · have least := (tiles.within member).2.2.2
      have points : block.addr = x.cursor := points
      refine .inr ⟨block, member, points, ?_, ?_⟩
      · omega
      · simp only [Block.stop]
        lia

namespace Machine

variable {σ : Type} {s t : Machine σ} {x y : Extent} {blocks others left right : List Block}
  {before after : Option Block} {block : Block}

structure Coalesced (s : Machine σ) (x : Extent) (left right : List Block) (merged : Block) (t : Machine σ) :
    Prop where
  heap : t.heap = { s.heap with extent := some { x with cursor := merged.relocate x.cursor } }
  requests : t.requests = s.requests
  blocks : t.heap.blocks t.memory = left ++ [merged] ++ right
  cursor : x.cursor = x.startSentinel ∧ merged.relocate x.cursor = x.startSentinel ∨
    ∃ block ∈ left ++ [merged] ++ right, block.addr = merged.relocate x.cursor ∧ block.Contains x.cursor

variable [Source σ] [LawfulSource σ]

theorem Releasing.coalesced (releasing : s.Releasing x blocks block t y others) (ready : s.Ready x blocks) :
    ∃ left run right merged, FreeRun blocks block left run right ∧ merged.Merges run ∧
      s.Coalesced x left right merged t := by
  have after := releasing.ready ready
  have requests := releasing.requests
  cases releasing with
  | @joined left right before behind parts neighbours =>
    subst parts
    refine ⟨left, _, right, block.join before behind, ⟨rfl, before, behind, rfl, neighbours⟩, block.join_merges _ _,
      ?_, requests, after.blocks_eq, ?_⟩
    · rw [← ready.releasing_cursor]
      rfl
    · have cursor := after.sound.cursor
      rw [ready.releasing_cursor] at cursor
      apply cursor.contains
      · simp
      · exact after.sound.tiles

end Machine

namespace World

variable {σ : Type} [Source σ] [LawfulSource σ] {mode : Mode} {w : World σ} {block : Block}

/-- A release joins the block with its free neighbours and leaves all other blocks, the size of the heap and its
    source as they are. -/
theorem Reachable.release_layout (reachable : w.Reachable mode) (live : block ∈ w.machine.allocated) :
    ∃ x t left run right merged, w.machine.heap.extent = some x ∧
      HeapM.free mode (some block.addr) w.machine = .ok () t ∧
      FreeRun (x.blocks w.machine.memory) block left run right ∧ merged.Merges run ∧
      w.machine.Coalesced x left right merged t := by
  obtain ⟨x, blocks, ready⟩ := reachable.balanced.consistent.ready live
  obtain ⟨member, busy⟩ := ready.mem_allocated.mp live
  obtain ⟨t, y, others, releasing⟩ := ready.exists_releasing member
  obtain ⟨left, run, right, merged, parts, merges, coalesced⟩ := releasing.coalesced ready
  rw [← ready.tiled.blocks_eq] at parts
  exact ⟨x, t, left, run, right, merged, ready.extent, releasing.run ready busy mode, parts, merges, coalesced⟩

theorem trial_release_layout :
    ∃ x t left run right merged, trial.machine.heap.extent = some x ∧
      HeapM.free .vetting (some 65584) trial.machine = .ok () t ∧
      FreeRun (x.blocks trial.machine.memory) ⟨65584, 112, true⟩ left run right ∧ merged.Merges run ∧
      trial.machine.Coalesced x left right merged t := by
  have live : ⟨65584, 112, true⟩ ∈ trial.machine.allocated := by decide +kernel
  exact Reachable.release_layout trial_reachable live

end World

end BoundaryTag
