import BoundaryTag.Proofs.Layout
import Mathlib.Data.List.Chain

namespace BoundaryTag

def Separated (blocks : List Block) : Prop := blocks.IsChain fun a b => a.allocated = true ∨ b.allocated = true

namespace Separated

variable {front back : List Block}

theorem cut_last (separated : Separated front) : ∃ rest : List Block, ∃ before : Option Block,
    front = rest ++ before.toList ∧ (∀ b ∈ before, b.allocated = false) ∧
      ∀ b ∈ rest.getLast?, b.allocated = true := by
  rcases List.eq_nil_or_concat' front with rfl | ⟨rest, last, rfl⟩
  · exact ⟨[], none, rfl, by simp, by simp⟩
  · by_cases busy : last.allocated = true
    · exact ⟨rest ++ [last], none, by simp, by simp, by simpa using busy⟩
    · obtain ⟨-, -, closed⟩ := List.isChain_append.mp separated
      refine ⟨rest, some last, rfl, by simpa using busy, ?_⟩
      intro b member
      exact (closed b member last (by simp)).resolve_right busy

theorem cut_head (separated : Separated back) : ∃ after : Option Block, ∃ rest : List Block,
    back = after.toList ++ rest ∧ (∀ b ∈ after, b.allocated = false) ∧
      ∀ b ∈ rest.head?, b.allocated = true := by
  cases back with
  | nil => exact ⟨none, [], rfl, by simp, by simp⟩
  | cons first rest =>
    by_cases busy : first.allocated = true
    · exact ⟨none, first :: rest, rfl, by simp, by simpa using busy⟩
    · obtain ⟨closed, -⟩ := List.isChain_cons.mp separated
      refine ⟨some first, rest, rfl, by simpa using busy, ?_⟩
      intro b member
      exact (closed b member).resolve_left busy

end Separated

namespace Extent

def CursorAt (x : Extent) (blocks : List Block) : Prop :=
  x.cursor = x.startSentinel ∨ ∃ block ∈ blocks, block.addr = x.cursor

theorem CursorAt.not_inside {x : Extent} {m : Memory} {blocks : List Block} {block : Block}
    (cursor : x.CursorAt blocks) (tiled : x.Tiled m blocks) (member : block ∈ blocks) :
    ¬(block.addr < x.cursor ∧ x.cursor < block.stop) := by
  rintro ⟨above, below⟩
  have bounds := tiled.tiles.within member
  rcases cursor with sentinel | ⟨other, otherMember, points⟩
  · simp only [startSentinel] at sentinel
    lia
  · have positive := (tiled.tiles.within otherMember).2.2.2
    have distinct : block ≠ other := by
      rintro rfl
      omega
    have apart := tiled.tiles.apart member otherMember distinct
    simp only [Block.stop] at apart below
    omega

structure Sound (x : Extent) (m : Memory) (blocks : List Block) : Prop extends x.Tiled m blocks where
  separated : Separated blocks
  cursor : x.CursorAt blocks

end Extent

def Heap.Sound {σ : Type} (heap : Heap σ) (m : Memory) : Prop :=
  ∀ x, heap.extent = some x → x.Sound m (x.blocks m)

end BoundaryTag
