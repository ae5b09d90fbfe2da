import BoundaryTag.Heap.Merge
import BoundaryTag.Proofs.Neighbours
import BoundaryTag.Proofs.Soundness

namespace BoundaryTag

def Block.join (block : Block) (before after : Option Block) : Block :=
  ⟨(before.getD block).addr, block.size + (before.elim 0 Block.size + after.elim 0 Block.size), false⟩

/-- The neighbours of a block that are free, if any, with the blocks farther off. -/
structure FreeNeighbours (left : List Block) (before after : Option Block) (right : List Block) : Prop where
  before : ∀ b ∈ before, b.allocated = false
  after : ∀ b ∈ after, b.allocated = false
  left : ∀ b ∈ left.getLast?, b.allocated = true
  right : ∀ b ∈ right.head?, b.allocated = true

/-- Where a cursor goes when the block swallows what it covers. -/
def Block.relocate (block : Block) (cursor : Nat) : Nat :=
  if block.addr < cursor ∧ cursor < block.stop then block.addr else cursor

def Extent.joined (x : Extent) (m : Memory) (block : Block) (before after : Option Block) : Merged :=
  let result := block.join before after
  if before.isNone && after.isNone then { block := block.addr, memory := m, cursor := x.cursor }
  else {
    block := result.addr
    memory := m.retag result
    cursor := result.relocate x.cursor
    events := [.merged block.addr result.size result.addr] }

theorem Tiles.join {start stop : Nat} {before after : Option Block} {block : Block}
    (tiles : Tiles start (before.toList ++ block :: after.toList) stop) :
    Tiles start [block.join before after] stop := by
  cases before <;> cases after <;>
    simp only [Option.toList, List.nil_append, List.singleton_append, Tiles, Block.join, Block.stop, Option.getD,
      Option.elim] at tiles ⊢ <;> lia

namespace Extent.Tiled

variable {x : Extent} {m : Memory} {left right : List Block} {before after : Option Block} {block : Block}

theorem join_fits (tiled : x.Tiled m (left ++ (before.toList ++ block :: after.toList) ++ right)) :
    IsBlockSize (block.join before after).size := by
  obtain ⟨start, stop, lower, run, rest⟩ := tiled.tiles.split
  obtain ⟨begins, whole, least, ends⟩ := run.join
  have low := lower.start_le
  have high := rest.start_le
  have limit := tiled.encodable
  refine ⟨whole, least, ?_⟩
  simp only [Tiles, Block.stop, Extent.stop] at ends high
  omega

theorem before_eq (tiled : x.Tiled m (left ++ (before.toList ++ block :: after.toList) ++ right))
    (free : ∀ b ∈ before, b.allocated = false) (closed : ∀ b ∈ left.getLast?, b.allocated = true) :
    (m.priorTag block.addr).isAllocated = before.isNone ∧
      ∀ b ∈ before, m.prior block.addr = b.addr ∧ (m.header b.addr).size = b.size := by
  cases before with
  | none =>
    have plain : x.Tiled m (left ++ block :: (after.toList ++ right)) := by simpa using tiled
    exact ⟨plain.priorTag_closed closed, by simp⟩
  | some before =>
    have plain : x.Tiled m (left ++ before :: block :: (after.toList ++ right)) := by simpa using tiled
    refine ⟨by rw [plain.priorTag_isAllocated, free before rfl]; rfl, ?_⟩
    intro b same
    obtain rfl : before = b := by simpa using same
    exact ⟨plain.prior_eq, plain.size_eq (by simp)⟩

theorem after_eq (tiled : x.Tiled m (left ++ (before.toList ++ block :: after.toList) ++ right))
    (free : ∀ b ∈ after, b.allocated = false) (closed : ∀ b ∈ right.head?, b.allocated = true) :
    (m.header (m.next block.addr)).isAllocated = after.isNone ∧
      ∀ b ∈ after, (m.header (m.next block.addr)).size = b.size := by
  cases after with
  | none =>
    have plain : x.Tiled m ((left ++ before.toList) ++ block :: right) := by simpa using tiled
    exact ⟨plain.next_closed closed, by simp⟩
  | some after =>
    have plain : x.Tiled m ((left ++ before.toList) ++ block :: after :: right) := by simpa using tiled
    have behind : x.Tiled m ((left ++ before.toList ++ [block]) ++ after :: right) := by simpa using tiled
    rw [plain.next_eq_addr]
    refine ⟨by rw [behind.header_isAllocated, free after rfl]; rfl, ?_⟩
    intro b same
    obtain rfl : after = b := by simpa using same
    exact behind.size_eq (by simp)

theorem merge_eq (tiled : x.Tiled m (left ++ (before.toList ++ block :: after.toList) ++ right))
    (neighbours : FreeNeighbours left before after right) :
    x.merge m block.addr = .ok (x.joined m block before after) := by
  obtain ⟨priorFree, prior⟩ := tiled.before_eq neighbours.before neighbours.left
  obtain ⟨nextFree, next⟩ := tiled.after_eq neighbours.after neighbours.right
  have own := tiled.size_eq (by simp : block ∈ _)
  have front : (if before.isNone then block.addr else m.prior block.addr) = (block.join before after).addr := by
    cases before with
    | none => rfl
    | some before => exact (prior before rfl).1
  have size : (if before.isNone then 0 else (m.header (block.join before after).addr).size) =
      before.elim 0 Block.size := by
    cases before with
    | none => rfl
    | some before => exact (prior before rfl).2
  have rest : (if after.isNone then 0 else (m.header (m.next block.addr)).size) = after.elim 0 Block.size := by
    cases after with
    | none => rfl
    | some after => exact next after rfl
  obtain ⟨whole, least, most⟩ := tiled.join_fits
  have sum : checkedAdd block.size (before.elim 0 Block.size + after.elim 0 Block.size) =
      .ok (block.join before after).size := by
    rw [checkedAdd, if_pos (by simp only [Block.join] at most; lia)]
    rfl
  have written : m.setTags (block.join before after).addr (block.join before after).size false =
      .ok (m.retag (block.join before after)) := Memory.setTags_eq_retag m _ whole (by lia)
  simp only [Extent.merge, own, priorFree, nextFree, front, size, rest, sum, joined]
  by_cases alone : (before.isNone && after.isNone) = true
  · simp only [alone, if_true]
    rfl
  · simp only [alone, Bool.false_eq_true, if_false, Bind.bind, Except.bind, Pure.pure, Except.pure, written,
      Bool.and_eq_true, decide_eq_true_eq, Block.relocate, Block.stop]
    rfl

theorem joined_block : (x.joined m block before after).block = (block.join before after).addr := by
  cases before <;> cases after <;> rfl

theorem joined_byte {address : Nat} (outside : ¬(block.join before after).TagByte address) :
    (x.joined m block before after).memory.byte address = m.byte address := by
  simp only [joined]
  split
  · rfl
  · exact Memory.byte_retag outside

theorem joined_tiled (tiled : x.Tiled m (left ++ (before.toList ++ block :: after.toList) ++ right))
    (free : block.allocated = false) :
    x.Tiled (x.joined m block before after).memory (left ++ [block.join before after] ++ right) := by
  refine tiled.replace (fun run => run.join) ?_ fun address outside => joined_byte (outside _ (by simp))
  simp only [List.mem_singleton, forall_eq, joined]
  split
  · rename_i alone
    obtain ⟨rfl, rfl⟩ : before = none ∧ after = none := by simpa using alone
    have same : block.join none none = block := by
      simp only [Block.join, Option.getD, Option.elim, Nat.add_zero, ← free]
    rw [same]
    exact tiled.tagged block (by simp)
  · obtain ⟨start, stop, lower, run, rest⟩ := tiled.tiles.split
    obtain ⟨begins, whole, least, ends⟩ := run.join
    have low := lower.start_le
    exact .retag m _ (by lia) (by lia)

theorem joined_cursor (tiled : x.Tiled m (left ++ (before.toList ++ block :: after.toList) ++ right))
    (cursor : x.CursorAt (left ++ (before.toList ++ block :: after.toList) ++ right)) :
    (x.joined m block before after).cursor = (block.join before after).relocate x.cursor := by
  simp only [joined]
  split
  · rename_i alone
    obtain ⟨rfl, rfl⟩ : before = none ∧ after = none := by simpa using alone
    have member : block ∈ left ++ (none.toList ++ block :: none.toList) ++ right := by simp
    have outside := cursor.not_inside tiled member
    have same : (block.join none none).relocate x.cursor = x.cursor := if_neg outside
    exact same.symm
  · rfl

theorem joined_cursorAt (tiled : x.Tiled m (left ++ (before.toList ++ block :: after.toList) ++ right))
    (cursor : x.CursorAt (left ++ (before.toList ++ block :: after.toList) ++ right)) :
    { x with cursor := (x.joined m block before after).cursor }.CursorAt
      (left ++ [block.join before after] ++ right) := by
  obtain ⟨start, stop, lower, run, rest⟩ := tiled.tiles.split
  obtain ⟨begins, whole, least, ends⟩ := run.join
  simp only [CursorAt, tiled.joined_cursor cursor]
  by_cases inside : (block.join before after).addr < x.cursor ∧ x.cursor < (block.join before after).stop
  · rw [Block.relocate, if_pos inside]
    exact .inr ⟨block.join before after, by simp, rfl⟩
  · rw [Block.relocate, if_neg inside]
    rcases cursor with sentinel | ⟨other, member, points⟩
    · exact .inl sentinel
    · simp only [List.mem_append] at member
      rcases member with (member | member) | member
      · exact .inr ⟨other, by simp [member], points⟩
      · -- not inside the joined block, so at its start
        have bounds := run.within (List.mem_append.mpr member)
        simp only [Block.stop] at bounds ends inside
        refine .inr ⟨block.join before after, by simp, ?_⟩
        simp only [Tiles] at ends
        lia
      · exact .inr ⟨other, by simp [member], points⟩

theorem joined_sound (tiled : x.Tiled m (left ++ (before.toList ++ block :: after.toList) ++ right))
    (free : block.allocated = false) (neighbours : FreeNeighbours left before after right)
    (ahead : Separated left) (behind : Separated right)
    (cursor : x.CursorAt (left ++ (before.toList ++ block :: after.toList) ++ right)) :
    { x with cursor := (x.joined m block before after).cursor }.Sound (x.joined m block before after).memory
      (left ++ [block.join before after] ++ right) := by
  refine ⟨(tiled.joined_tiled free).withCursor _, ?_, ?_⟩
  · refine List.isChain_append.mpr ⟨List.isChain_append.mpr ⟨ahead, .singleton _, ?_⟩, behind, ?_⟩
    · exact fun b member _ _ => .inl (neighbours.left b member)
    · exact fun _ _ b member => .inr (neighbours.right b member)
  · exact tiled.joined_cursorAt cursor

end Extent.Tiled

end BoundaryTag
