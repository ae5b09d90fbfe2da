import BoundaryTag.Proofs.Balance
import BoundaryTag.Proofs.Outcome

namespace BoundaryTag

/-- The last block of a heap that grew to behind `stop`, and the blocks before it: the new bytes join the last
    block if that one is free. -/
inductive Stretched (blocks : List Block) (stop bytes : Nat) : List Block → Block → Prop
  | joined {left : List Block} {last : Block} (parts : blocks = left ++ [last]) (free : last.allocated = false) :
    Stretched blocks stop bytes left ⟨last.addr, last.size + bytes, false⟩
  | appended (busy : ∀ last ∈ blocks.getLast?, last.allocated = true) :
    Stretched blocks stop bytes blocks ⟨stop, bytes, false⟩

namespace Extent

variable {x : Extent} {m : Memory} {blocks left : List Block} {before : Option Block} {bytes : Nat}

theorem stretched_tail (x : Extent) (bytes : Nat) (neighbours : FreeNeighbours left before none []) :
    Stretched (left ++ before.toList) x.stop bytes left (x.tail bytes before) := by
  cases before with
  | none =>
    rw [Option.toList_none, List.append_nil]
    exact .appended neighbours.left
  | some last =>
    have size : bytes + (last.size + 0) = last.size + bytes := by omega
    simp only [tail, Block.join, fresh, Option.getD_some, Option.elim, size]
    exact .joined rfl (neighbours.before last rfl)

theorem Sound.cursor_lt_stop (sound : x.Sound m blocks) : x.cursor < x.stop := by
  rcases sound.cursor with sentinel | ⟨block, member, points⟩
  · have room := sound.tiles.start_le
    rw [sentinel, startSentinel]
    lia
  · have bounds := sound.tiles.within member
    simp only [Block.stop] at bounds
    lia

/-- A cursor is never inside the last block or behind it, so growth leaves it where it is. -/
theorem Sound.grown_eq (sound : x.Sound m (left ++ before.toList)) (bytes : Nat) :
    x.grown bytes before = x.longer bytes := by
  have low := sound.cursor_lt_stop
  have outside : ¬((x.tail bytes before).addr < x.cursor ∧ x.cursor < (x.tail bytes before).stop) := by
    rintro ⟨above, -⟩
    cases before with
    | none =>
      have begins : (x.tail bytes none).addr = x.stop := rfl
      omega
    | some last =>
      have ends : last.stop = x.stop := sound.tiles.around.2.2.2
      apply sound.cursor.not_inside sound.toTiled (by simp : last ∈ _)
      exact ⟨above, by omega⟩
  rw [Extent.grown, Block.relocate, if_neg outside]
  rfl

end Extent

namespace Machine

variable {σ : Type} [Source σ]

def Places (s : Machine σ) (x : Extent) (need pointer : Nat) (y : Extent) (others : List Block) : Prop :=
  if x.Holds s.memory need then
    ∃ left right block, x.blocks s.memory = left ++ [block] ++ right ∧ x.findFit? s.memory need = some block ∧
      need ≤ block.size ∧ pointer = block.addr ∧ y = { x with cursor := block.addr } ∧
      others = left ++ block.placed need ++ right
  else
    ∃ left tail, Stretched (x.blocks s.memory) x.stop (s.growthFor need) left tail ∧
      need ≤ tail.size ∧ pointer = tail.addr ∧ y = { x with size := x.size + s.growthFor need } ∧
      others = left ++ tail.placed need

variable [LawfulSource σ] {s t : Machine σ} {x y : Extent} {blocks others : List Block} {size pointer : Nat}

theorem Serving.places (serving : s.Serving x blocks size (.ok (some pointer)) t y others) (ready : s.Ready x blocks) :
    ∃ need, blockSizeFor? size = some need ∧ s.Places x need pointer y others := by
  have listed := ready.tiled.blocks_eq
  cases serving with
  | @found need left right block positive adjusted parts found =>
    subst parts
    refine ⟨need, adjusted, ?_⟩
    rw [Places, if_pos (ready.sound.holds found), listed]
    exact ⟨left, right, block, rfl, found, (ready.found found).2.2, rfl, rfl, rfl⟩
  | @grown need start left before positive adjusted unfound room granted parts neighbours =>
    subst parts
    refine ⟨need, adjusted, ?_⟩
    have enough := (ready.grown_tail adjusted neighbours room granted).2.2
    rw [Places, if_neg (ready.sound.not_holds unfound), listed]
    exact ⟨left, _, x.stretched_tail _ neighbours, enough, rfl, ready.sound.grown_eq _, rfl⟩

end Machine

namespace World

variable {σ : Type} [Source σ] [LawfulSource σ] {mode : Mode} {w : World σ} {x : Extent} {size pointer : Nat}

/-- A served request splits one block, or takes the whole of it, and leaves all others as they are. -/
theorem Reachable.allocation_layout (reachable : w.Reachable mode) (extent : w.machine.heap.extent = some x)
    (answered : w.answer? mode (.tryAllocate size) = some (some pointer)) :
    let t := (w.after mode (.command (.tryAllocate size))).machine
    ∃ need y, blockSizeFor? size = some need ∧ t.heap.extent = some y ∧
      w.machine.Places x need pointer y (t.heap.blocks t.memory) := by
  have ready := reachable.balanced.consistent.ready_of_extent extent
  obtain ⟨result, t, y, others, serving⟩ := ready.exists_serving size
  have run := (Machine.Requesting.ready ready serving).run
  cases result with
  | error cause => simp [answer?, Command.perform, run, HeapM.ends] at answered
  | ok answer =>
    obtain rfl : answer = some pointer := by simpa [answer?, Command.perform, run, HeapM.ends] using answered
    have next : (w.after mode (.command (.tryAllocate size))).machine = t := by
      simp only [World.after, Command.perform, run, HeapM.ends, settle]
    have after := serving.ready ready
    obtain ⟨need, adjusted, places⟩ := serving.places ready
    rw [next]
    refine ⟨need, y, adjusted, after.extent, ?_⟩
    rw [after.blocks_eq]
    exact places

theorem trial_allocation_layout :
    let t := (trial.after .vetting (.command (.tryAllocate 200))).machine
    ∃ need y, blockSizeFor? 200 = some need ∧ t.heap.extent = some y ∧
      trial.machine.Places trialExtent need 65696 y (t.heap.blocks t.memory) :=
  Reachable.allocation_layout trial_reachable trial_extent (by decide +kernel)

end World

end BoundaryTag
