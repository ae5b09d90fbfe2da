import BoundaryTag.Proofs.Refitting
import Mathlib.Data.List.Forall2

namespace BoundaryTag

namespace Machine

variable {σ : Type} [Source σ] [LawfulSource σ] {s : Machine σ} {x : Extent} {left : List Block} {block : Block}
  {size need : Nat} {sizes needs : List Nat}

theorem Ready.serves_last (ready : s.Ready x (left ++ [block])) (busy : ∀ other ∈ left, other.allocated = true)
    (free : block.allocated = false) (positive : size ≠ 0) (adjusted : blockSizeFor? size = some need)
    (enough : need ≤ block.size) :
    ∃ t y, HeapM.tryAllocate size s = .ok (some block.addr) t ∧ t.Ready y (left ++ block.placed need) ∧
      t.requests = s.requests ∧ t.heap.source = s.heap.source := by
  rw [← List.append_nil (left ++ [block])] at ready
  have fits : block.fits need = true := by simp [Block.fits, free, enough]
  have unfit : ∀ other ∈ left ++ [], other.fits need = false := by
    intro other member
    simp [Block.fits, busy other (by simpa using member)]
  have serving := Serving.found positive adjusted (rfl : left ++ [block] ++ [] = _) (ready.sound.findFit?_of_unfit fits unfit)
  have after := serving.ready ready
  rw [List.append_nil] at after
  refine ⟨_, _, (Requesting.ready ready serving).run, after, ?_, rfl⟩
  rw [place_requests]
  rfl

/-- Induction on the requests: the blocks handed out so far lie before the one that is left. -/
theorem Ready.refills (ready : s.Ready x (left ++ [block])) (busy : ∀ other ∈ left, other.allocated = true)
    (free : block.allocated = false) (positive : ∀ size ∈ sizes, size ≠ 0)
    (adjusted : List.Forall₂ (blockSizeFor? · = some ·) sizes needs) (room : needs.sum ≤ block.size) :
    ∃ t, sizes.mapM HeapM.tryAllocate s =
        .ok ((List.range sizes.length).map fun k => some (block.addr + (needs.take k).sum)) t ∧
      t.requests = s.requests ∧ t.heap.source = s.heap.source := by
  induction adjusted generalizing s x left block with
  | nil => exact ⟨s, rfl, rfl, rfl⟩
  | @cons size need sizes needs first rest ih =>
    obtain ⟨here, later⟩ := List.forall_mem_cons.mp positive
    rw [List.sum_cons] at room
    obtain ⟨t, y, run, after, quiet, same⟩ := ready.serves_last busy free here first (by omega)
    have still : ∃ u, sizes.mapM HeapM.tryAllocate t =
        .ok ((List.range sizes.length).map fun k => some (block.addr + need + (needs.take k).sum)) u ∧
          u.requests = t.requests ∧ u.heap.source = t.heap.source := by
      by_cases splits : block.Splits need
      · rw [Block.placed, Block.spare, if_pos splits, List.append_cons] at after
        refine ih after ?_ rfl later (by dsimp only; omega)
        simpa [or_imp, forall_and, Block.granted] using busy
      · cases rest with
        | nil => exact ⟨t, rfl, rfl, rfl⟩
        | cons next rest =>
          -- what is left is too small for a block of its own, so there is no next request
          have least := (isBlockSize_of_blockSizeFor? next).1.2.1
          rw [List.sum_cons] at room
          unfold Block.Splits at splits
          omega
    obtain ⟨u, others, silent, unchanged⟩ := still
    refine ⟨u, ?_, silent.trans quiet, unchanged.trans same⟩
    rw [List.mapM_cons, HeapM.bind_ok run, HeapM.bind_ok others, List.length_cons, List.range_succ_eq_map]
    simp [Function.comp_def, Nat.add_assoc]

end Machine

namespace World

variable {σ : Type} [Source σ] [LawfulSource σ] {mode : Mode} {w : World σ} {addr free : Nat} {sizes needs : List Nat}

/-- A heap that is one free block serves all requests that fit into it together, one behind the other, and asks
    nothing of its source. -/
theorem Reachable.refilled (reachable : w.Reachable mode)
    (single : w.machine.heap.blocks w.machine.memory = [⟨addr, free, false⟩]) (positive : ∀ size ∈ sizes, 1 ≤ size)
    (adjusted : List.Forall₂ (blockSizeFor? · = some ·) sizes needs) (room : needs.sum ≤ free) :
    ∃ t, sizes.mapM HeapM.tryAllocate w.machine =
        .ok ((List.range sizes.length).map fun k => some (addr + (needs.take k).sum)) t ∧
      t.requests = w.machine.requests ∧ t.heap.source = w.machine.heap.source := by
  rcases reachable.balanced.consistent with unset | ⟨x, blocks, ready⟩
  · simp [Heap.blocks, unset.extent] at single
  · obtain rfl : blocks = [] ++ [⟨addr, free, false⟩] := ready.blocks_eq.symm.trans single
    exact ready.refills (by simp) rfl (fun size member => Nat.ne_of_gt (positive size member)) adjusted room

def emptied : World Region := trial.run .vetting [.command (.free (some 65584)), .command (.free (some 65552))]

theorem emptied_reachable : emptied.Reachable .vetting := by
  refine trial_reachable.run ⟨?_, ?_, trivial⟩
  · decide +kernel
  · decide +kernel

/-- The last request also takes the eight bytes that no block could be made of. -/
theorem emptied_refilled :
    ∃ t, [24, 100, 16].mapM HeapM.tryAllocate emptied.machine = .ok [some 65552, some 65584, some 65696] t ∧
      t.requests = emptied.machine.requests ∧ t.heap.source = emptied.machine.heap.source := by
  have single : emptied.machine.heap.blocks emptied.machine.memory = [⟨65552, 176, false⟩] := by decide +kernel
  have adjusted : List.Forall₂ (blockSizeFor? · = some ·) [24, 100, 16] [32, 112, 24] :=
    .cons rfl (.cons rfl (.cons rfl .nil))
  exact Reachable.refilled emptied_reachable single (by decide) adjusted (by decide)

end World

end BoundaryTag
